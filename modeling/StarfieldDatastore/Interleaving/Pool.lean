import StarfieldDatastore.Interleaving.RelyGuarantee
import Mathlib.Logic.Function.Basic

/-! Any number of programs interleaved call by call over one shared state. Each thread
runs one program; a thread can be killed between any two of its calls. -/
namespace Interleaving

/-- A thread, with the state in which its program was launched. -/
inductive Status (C : Type) (R : C → Type) (S α : Type) : Type
  | fresh
  | running (since : S) (p : Program C R α)
  | finished (since : S) (a : α)
  | killed

/-- What threads may launch, what their calls do, and what a kill does to the state. -/
structure System (T C : Type) (R : C → Type) (S α : Type) where
  step : T → (c : C) → S → R c → S → Prop
  launch : T → S → Program C R α → Prop
  kill : T → S → S → Prop

structure Config (T C : Type) (R : C → Type) (S α : Type) where
  thread : T → Status C R S α
  state : S

/-- The thread has begun its program and has not come to its end. -/
def Config.Running {T C : Type} {R : C → Type} {S α : Type} (c : Config T C R S α) (t : T) : Prop :=
  ∃ s₀ p, c.thread t = .running s₀ p

namespace System
variable {T C : Type} {R : C → Type} {S α : Type}

/-- One step of one thread. -/
inductive Next [DecidableEq T] (sys : System T C R S α) : Config T C R S α → Config T C R S α → Prop
  | launch {c t p} (fresh : c.thread t = .fresh) (may : sys.launch t c.state p) :
      Next sys c ⟨Function.update c.thread t (.running c.state p),c.state⟩
  | call {c t s₀ cl next r s'} (running : c.thread t = .running s₀ (.call cl next))
      (does : sys.step t cl c.state r s') :
      Next sys c ⟨Function.update c.thread t (.running s₀ (next r)),s'⟩
  | finish {c t s₀ a} (running : c.thread t = .running s₀ (.done a)) :
      Next sys c ⟨Function.update c.thread t (.finished s₀ a),c.state⟩
  | kill {c t s₀ p s'} (running : c.thread t = .running s₀ p) (does : sys.kill t c.state s') :
      Next sys c ⟨Function.update c.thread t .killed,s'⟩

/-- The configurations that runs from `c` reach, in any interleaving. -/
abbrev Reaches [DecidableEq T] (sys : System T C R S α) : Config T C R S α → Config T C R S α → Prop :=
  Relation.ReflTransGen sys.Next

def init (s : S) : Config T C R S α := ⟨fun _ => .fresh,s⟩

/-- Where no thread can be killed, none is. -/
theorem not_killed [DecidableEq T] {sys : System T C R S α} {s : S} {c : Config T C R S α}
    (hr : sys.Reaches (init s) c) (hkill : ∀ t s s', ¬ sys.kill t s s') (t : T) : c.thread t ≠ .killed := by
  induction hr with
  | refl => simp [init]
  | tail _ hn ih =>
    cases hn with
    | kill _ does => exact absurd does (hkill _ _ _)
    | _ =>
      simp only [Function.update_apply]
      split
      · simp
      · exact ih

/-- One thread running alone to the end of its program. -/
theorem reaches_of_runs [DecidableEq T] {sys : System T C R S α} {thread : T → Status C R S α} {t : T}
    {s₀ s s' : S} {p : Program C R α} {events : List (Program.Event C R)} {a : α}
    (ht : thread t = .running s₀ p) (h : p.Runs (sys.step t) s events a s') :
    sys.Reaches ⟨thread,s⟩ ⟨Function.update thread t (.running s₀ (.done a)),s'⟩ := by
  induction h generalizing thread with
  | done a s => rw [← ht,Function.update_eq_self]
  | call head _ ih =>
    refine .head (.call ht head) ?_
    have := ih (Function.update_self t (Status.running s₀ _) thread)
    rwa [Function.update_idem] at this

/-- A rely and a guarantee for each thread under which every program it may launch
holds. The guarantees keep an invariant, and as long as it holds they are what the other
threads rely on. -/
structure Discipline (sys : System T C R S α) where
  inv : S → Prop
  rely : T → S → S → Prop
  guar : T → S → S → Prop
  pre : T → S → Prop
  post : T → S → α → S → Prop
  rely_refl : ∀ t s, rely t s s
  rely_trans : ∀ t {s s' s''}, rely t s s' → rely t s' s'' → rely t s s''
  guar_inv : ∀ {t s s'}, guar t s s' → inv s → inv s'
  guar_rely : ∀ {t u s s'}, t ≠ u → inv s → guar t s s' → rely u s s'
  kill_inv : ∀ {t s s'}, sys.kill t s s' → inv s → inv s'
  kill_rely : ∀ {t u s s'}, t ≠ u → inv s → sys.kill t s s' → rely u s s'
  pre_stable : ∀ {t s s'}, rely t s s' → pre t s → pre t s'
  launch_holds : ∀ {t s p}, sys.launch t s p → pre t s → p.Holds
    ⟨fun c s r s' => inv s ∧ sys.step t c s r s',rely t,guar t,rely_refl t,rely_trans t⟩ (post t s) s

namespace Discipline
variable {sys : System T C R S α} (d : Discipline sys)

/-- The setting in which a thread's program runs. -/
def setting (t : T) : Setting C R S :=
  ⟨fun c s r s' => d.inv s ∧ sys.step t c s r s',d.rely t,d.guar t,d.rely_refl t,d.rely_trans t⟩

/-- What is known of a thread from its status. -/
def Good (t : T) (s : S) : Status C R S α → Prop
  | .fresh => d.pre t s
  | .running s₀ p => p.Holds (d.setting t) (d.post t s₀) s
  | .finished s₀ a => ∀ s', d.rely t s s' → d.post t s₀ a s'
  | .killed => True

theorem Good.stable {t : T} {s s' : S} {st : Status C R S α}
    (h : d.Good t s st) (hs : d.rely t s s') : d.Good t s' st := by
  cases st with
  | fresh => exact d.pre_stable hs h
  | running s₀ p => exact Program.Holds.stable h hs
  | finished s₀ a => exact fun s'' hs' => h s'' (d.rely_trans t hs hs')
  | killed => trivial

/-- The invariant holds, and what is known of each thread is true. -/
structure Sound (c : Config T C R S α) : Prop where
  inv : d.inv c.state
  good : ∀ t, d.Good t c.state (c.thread t)

/-- A step of thread `t` re-establishes its own knowledge and keeps that of the others. -/
theorem Sound.update [DecidableEq T] {c : Config T C R S α} {t : T} {s' : S} {st : Status C R S α}
    (h : d.Sound c) (hinv : d.inv s') (hrely : ∀ u, t ≠ u → d.rely u c.state s')
    (hst : d.Good t s' st) : d.Sound ⟨Function.update c.thread t st,s'⟩ := by
  refine ⟨hinv,fun u => ?_⟩
  by_cases hu : u = t
  · subst u
    simpa using hst
  · simp only [Function.update_of_ne hu]
    exact (h.good u).stable d (hrely u (Ne.symm hu))

/-- What holds of every thread before it is launched and after its end fails of those that run alone. -/
theorem Sound.running {c : Config T C R S α} {P : T → S → Prop} (h : d.Sound c)
    (hpre : ∀ t s, d.pre t s → P t s) (hpost : ∀ t s₀ a s, d.post t s₀ a s → P t s)
    (hkilled : ∀ t, c.thread t ≠ .killed) {t : T} (ht : ¬ P t c.state) : c.Running t := by
  have hgood := h.good t
  cases hst : c.thread t with
  | fresh =>
    rw [hst] at hgood
    exact absurd (hpre t _ hgood) ht
  | running s₀ p => exact ⟨s₀,p,hst⟩
  | finished s₀ a =>
    rw [hst] at hgood
    exact absurd (hpost t s₀ a _ (hgood _ (d.rely_refl t _))) ht
  | killed => exact absurd hst (hkilled t)

/-- Every step either leaves the state alone, is a call within its thread's guarantee,
or is a kill. -/
theorem Sound.step_cases [DecidableEq T] {c c' : Config T C R S α} (h : d.Sound c) (hn : sys.Next c c') :
    c'.state = c.state ∨ ∃ t, d.guar t c.state c'.state ∨ sys.kill t c.state c'.state := by
  cases hn with
  | launch _ _ => exact .inl rfl
  | call hr hd =>
    rename_i t s₀ cl next r s'
    have ht := h.good t
    rw [hr] at ht
    exact .inr ⟨t,.inl (ht _ (d.rely_refl t _) _ _ ⟨h.inv,hd⟩).1⟩
  | finish _ => exact .inl rfl
  | kill _ hd => exact .inr ⟨_,.inr hd⟩

theorem Sound.next [DecidableEq T] {c c' : Config T C R S α} (h : d.Sound c) (hn : sys.Next c c') :
    d.Sound c' := by
  cases hn with
  | launch hf hm =>
    rename_i t p
    have ht := h.good t
    rw [hf] at ht
    exact h.update d h.inv (fun u _ => d.rely_refl u _) (d.launch_holds hm ht)
  | call hr hd =>
    rename_i t s₀ cl next r s'
    have ht := h.good t
    rw [hr] at ht
    obtain ⟨hg,hp⟩ := ht _ (d.rely_refl t _) _ _ ⟨h.inv,hd⟩
    exact h.update d (d.guar_inv hg h.inv) (fun u hu => d.guar_rely hu h.inv hg) hp
  | finish hr =>
    rename_i t s₀ a
    have ht := h.good t
    rw [hr] at ht
    exact h.update d h.inv (fun u _ => d.rely_refl u _) ht
  | kill hr hd =>
    exact h.update d (d.kill_inv hd h.inv) (fun u hu => d.kill_rely hu h.inv hd) trivial

theorem sound_of_reaches [DecidableEq T] {c c' : Config T C R S α} (h : d.Sound c) (hr : sys.Reaches c c') :
    d.Sound c' := by
  induction hr with
  | refl => exact h
  | tail _ hn ih => exact ih.next d hn

theorem sound_init {s : S} (hinv : d.inv s) (h : ∀ t, d.pre t s) : d.Sound (init s) := ⟨hinv,h⟩

/-- What every guarantee keeps while the invariant holds is kept by all runs. -/
theorem kept_of_reaches [DecidableEq T] {P : S → Prop}
    (hguar : ∀ t s s', d.inv s → d.guar t s s' → P s → P s')
    (hkill : ∀ t s s', d.inv s → sys.kill t s s' → P s → P s') {c c' : Config T C R S α}
    (h : d.Sound c) (hP : P c.state) (hr : sys.Reaches c c') : P c'.state := by
  induction hr with
  | refl => exact hP
  | tail hp hn ih =>
    have hs := d.sound_of_reaches h hp
    rcases hs.step_cases d hn with he | ⟨t,hg | hk⟩
    · rwa [he]
    · exact hguar t _ _ hs.inv hg ih
    · exact hkill t _ _ hs.inv hk ih

end Discipline
end System
end Interleaving
