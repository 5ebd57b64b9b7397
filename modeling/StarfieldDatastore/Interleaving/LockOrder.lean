import StarfieldDatastore.Interleaving.Pool
import Mathlib.Data.Set.Basic

/-! Locks with a rank. A program that waits only for locks above those it holds can wait
for another thread, but threads that all do so never wait in a cycle. -/
namespace Interleaving

/-- Which calls wait for a lock, what a thread holds after a call, and the order of locks. -/
structure Locking (C : Type) (R : C → Type) (L : Type) where
  acquires : C → Option L
  after : (c : C) → R c → Set L → Set L
  rank : L → ℕ

namespace Program
variable {C : Type} {R : C → Type} {L α β ε : Type}

/-- Whatever it is answered, the program waits only for locks above those it holds. It
starts with `held` and ends with locks that satisfy `Q`. -/
def Ranked (K : Locking C R L) : Program C R α → (α → Set L → Prop) → Set L → Prop
  | .done a, Q, held => Q a held
  | .call c next, Q, held => (∀ l, K.acquires c = some l → ∀ l' ∈ held, K.rank l' < K.rank l) ∧
      ∀ r, (next r).Ranked K Q (K.after c r held)

/-- The program gives back what it takes. -/
def Balanced (K : Locking C R L) (p : Program C R α) (held : Set L) : Prop :=
  p.Ranked K (fun _ rest => rest = held) held

namespace Ranked
variable {K : Locking C R L} {p : Program C R α} {Q Q' : α → Set L → Prop} {held : Set L}

theorem mono (h : p.Ranked K Q held) (hQ : ∀ a rest, Q a rest → Q' a rest) : p.Ranked K Q' held := by
  induction p generalizing held with
  | done a => exact hQ a held h
  | call c next ih => exact ⟨h.1,fun r => ih r (h.2 r)⟩

theorem bind {f : α → Program C R β} {P : β → Set L → Prop}
    (h : p.Ranked K (fun a rest => (f a).Ranked K P rest) held) : (p >>= f).Ranked K P held := by
  induction p generalizing held with
  | done a => exact h
  | call c next ih => exact ⟨h.1,fun r => ih r (h.2 r)⟩

theorem perform_bind {c : C} {f : R c → Program C R β} {P : β → Set L → Prop}
    (hc : ∀ l, K.acquires c = some l → ∀ l' ∈ held, K.rank l' < K.rank l)
    (h : ∀ r, (f r).Ranked K P (K.after c r held)) : (perform c >>= f).Ranked K P held := ⟨hc,h⟩

end Ranked

namespace Balanced
variable {K : Locking C R L} {p : Program C R α} {held : Set L}

theorem bind {f : α → Program C R β} (hp : p.Balanced K held) (hf : ∀ a, (f a).Balanced K held) :
    (p >>= f).Balanced K held := by
  refine Ranked.bind (hp.mono fun a rest hrest => ?_)
  subst hrest
  exact hf a

/-- Composition of operations that can fail. -/
theorem bind_run {x : ExceptT ε (Program C R) α} {f : α → ExceptT ε (Program C R) β}
    (hx : x.run.Balanced K held) (hf : ∀ a, (f a).run.Balanced K held) : (x >>= f).run.Balanced K held :=
  bind hx fun r => match r with
    | .ok a => hf a
    | .error _ => rfl

theorem lift (hp : p.Balanced K held) : (liftM p : ExceptT ε (Program C R) α).run.Balanced K held :=
  bind hp fun _ => rfl

/-- Calls that have nothing to do with locks. -/
theorem of_only (h : p.Only fun c => K.acquires c = none ∧ ∀ r held, K.after c r held = held) :
    p.Balanced K held := by
  induction p with
  | done a => rfl
  | call c next ih =>
    obtain ⟨⟨hacquires,hafter⟩,hnext⟩ := h
    refine ⟨fun l hl => ?_,fun r => ?_⟩
    · rw [hacquires] at hl
      cases hl
    · rw [hafter]
      exact ih r (hnext r)

end Balanced
end Program

namespace System
variable {T C : Type} {R : C → Type} {S L α : Type}

/-- The locks in the shared state follow what each thread holds, and a thread that is
launched takes them in order and gives them back. -/
structure Locks (sys : System T C R S α) (K : Locking C R L) (owner : S → L → Option T) : Prop where
  call : ∀ {t c s r s'}, sys.step t c s r s' → {l | owner s' l = some t} = K.after c r {l | owner s l = some t}
  others : ∀ {t c s r s' u}, sys.step t c s r s' → u ≠ t → ∀ l, owner s' l = some u ↔ owner s l = some u
  kill : ∀ {t s s'}, sys.kill t s s' → ∀ l, owner s' l ≠ some t
  kill_others : ∀ {t s s' u}, sys.kill t s s' → u ≠ t → ∀ l, owner s' l = some u ↔ owner s l = some u
  launch : ∀ {t s p}, sys.launch t s p → p.Balanced K ∅

/-- Thread `t` has been launched and has not come to its end. -/
def Unfinished (c : Config T C R S α) (t : T) : Prop := ∃ s₀ p, c.thread t = .running s₀ p

/-- Thread `t` cannot go on before thread `u` gives up a lock. -/
def Waits (K : Locking C R L) (owner : S → L → Option T) (c : Config T C R S α) (t u : T) : Prop :=
  ∃ s₀ call next l, c.thread t = .running s₀ (.call call next) ∧ K.acquires call = some l ∧
    owner c.state l = some u

/-- A running thread still has to give back what it holds; the others hold nothing. -/
def Accounted (K : Locking C R L) (owner : S → L → Option T) (s : S) (t : T) : Status C R S α → Prop
  | .running _ p => p.Ranked K (fun _ rest => rest = ∅) {l | owner s l = some t}
  | _ => {l | owner s l = some t} = ∅

section locks
variable {sys : System T C R S α} {K : Locking C R L} {owner : S → L → Option T}
  {c c' : Config T C R S α} {t u : T}

theorem Accounted.congr {s s' : S} {st : Status C R S α} (h : Accounted K owner s t st)
    (hs : ∀ l, owner s' l = some t ↔ owner s l = some t) : Accounted K owner s' t st := by
  have he : {l | owner s' l = some t} = {l | owner s l = some t} := Set.ext hs
  cases st with
  | running s₀ p =>
    simp only [Accounted,he]
    exact h
  | _ => exact he.trans h

section runs
variable [DecidableEq T]

theorem Locks.next (hk : sys.Locks K owner) (hn : sys.Next c c')
    (h : ∀ t, Accounted K owner c.state t (c.thread t)) : ∀ t, Accounted K owner c'.state t (c'.thread t) := by
  intro v
  have ht := h v
  cases hn with
  | launch hfresh hmay =>
    rename_i t p
    by_cases hv : v = t
    · subst v
      rw [hfresh] at ht
      simp only [Function.update_self]
      have hempty : {l | owner c.state l = some t} = ∅ := ht
      simp only [Accounted,hempty]
      exact hk.launch hmay
    · simpa only [Function.update_of_ne hv] using ht
  | call hrunning hdoes =>
    rename_i t s₀ cl next r s'
    by_cases hv : v = t
    · subst v
      rw [hrunning] at ht
      simp only [Function.update_self,Accounted,hk.call hdoes]
      exact ht.2 r
    · simp only [Function.update_of_ne hv]
      exact ht.congr (hk.others hdoes hv)
  | finish hrunning =>
    rename_i t s₀ a
    by_cases hv : v = t
    · subst v
      rw [hrunning] at ht
      simp only [Function.update_self]
      exact ht
    · simpa only [Function.update_of_ne hv] using ht
  | kill hrunning hkill =>
    rename_i t s₀ p s'
    by_cases hv : v = t
    · subst v
      simp only [Function.update_self]
      exact Set.eq_empty_of_forall_notMem (hk.kill hkill)
    · simp only [Function.update_of_ne hv]
      exact ht.congr (hk.kill_others hkill hv)

theorem Locks.of_reaches (hk : sys.Locks K owner) {s : S} (hs : ∀ l, owner s l = none)
    (hr : sys.Reaches (init s) c) : ∀ t, Accounted K owner c.state t (c.thread t) := by
  induction hr with
  | refl =>
    intro t
    have hnone : {l | owner s l = some t} = ∅ := by
      ext l
      simp [hs l]
    exact hnone
  | tail _ hn ih => exact hk.next hn ih

end runs

/-- Whoever holds a lock is running, and is either able to go on or waits for a lock above
it. -/
theorem holder_goes_on (h : ∀ t, Accounted K owner c.state t (c.thread t)) {l : L}
    (hl : owner c.state l = some u) : Unfinished c u ∧ ∀ s₀ call next l', c.thread u = .running s₀ (.call call next) →
      K.acquires call = some l' → K.rank l < K.rank l' := by
  have hu := h u
  have hmem : l ∈ {l | owner c.state l = some u} := hl
  constructor
  · cases hst : c.thread u with
    | running s₀ p => exact ⟨s₀,p,hst⟩
    | _ =>
      rw [hst] at hu
      have hempty : {l | owner c.state l = some u} = ∅ := hu
      rw [hempty] at hmem
      cases hmem
  · intro s₀ call next l' hst hl'
    rw [hst] at hu
    exact hu.1 l' hl' l hmem

/-- Following who waits for whom leads to higher and higher locks. -/
theorem rank_lt_of_waits (h : ∀ t, Accounted K owner c.state t (c.thread t))
    (hw : Relation.TransGen (Waits K owner c) t u) {s₁ s₂ : S} {call₁ call₂ : C} {next₁ next₂} {l₁ l₂ : L}
    (ht : c.thread t = .running s₁ (.call call₁ next₁)) (hl₁ : K.acquires call₁ = some l₁)
    (hu : c.thread u = .running s₂ (.call call₂ next₂)) (hl₂ : K.acquires call₂ = some l₂) :
    K.rank l₁ < K.rank l₂ := by
  have hstep : ∀ {v : T} {s call next l}, Waits K owner c t v → c.thread v = .running s (.call call next) →
      K.acquires call = some l → K.rank l₁ < K.rank l := by
    intro v s call next l hwait hv hl
    obtain ⟨s₀,call',next',l',ht',hl',howner⟩ := hwait
    rw [ht] at ht'
    cases ht'
    rw [hl₁] at hl'
    cases hl'
    exact (holder_goes_on h howner).2 _ _ _ _ hv hl
  induction hw generalizing s₂ call₂ next₂ l₂ with
  | single hwait => exact hstep hwait hu hl₂
  | tail _ hwait ih =>
    obtain ⟨s₀,call,next,l,hb,hl,howner⟩ := hwait
    exact (ih hb hl).trans ((holder_goes_on h howner).2 _ _ _ _ hu hl₂)

/-- No set of threads waits in a cycle. -/
theorem Locks.acyclic [DecidableEq T] (hk : sys.Locks K owner) {s : S} (hs : ∀ l, owner s l = none)
    (hr : sys.Reaches (init s) c) (t : T) : ¬Relation.TransGen (Waits K owner c) t t := by
  intro hw
  obtain ⟨u,⟨s₀,call,next,l,ht,hl,-⟩,-⟩ := Relation.TransGen.head'_iff.mp hw
  exact absurd (rank_lt_of_waits (hk.of_reaches hs hr) hw ht hl ht hl) (Nat.lt_irrefl _)

/-- As long as a thread is unfinished, some unfinished thread waits for nobody. -/
theorem Locks.unblocked [DecidableEq T] (hk : sys.Locks K owner) {n : ℕ} (hrank : ∀ l, K.rank l ≤ n) {s : S}
    (hs : ∀ l, owner s l = none) (hr : sys.Reaches (init s) c) (ht : Unfinished c t) :
    ∃ u, Unfinished c u ∧ ∀ v, ¬Waits K owner c u v := by
  have h := hk.of_reaches hs hr
  -- induction on how many ranks lie above the lock that a thread waits for
  have hlevels : ∀ k t, Unfinished c t → (∀ s₀ call next l, c.thread t = .running s₀ (.call call next) →
      K.acquires call = some l → n < K.rank l+k) → ∃ u, Unfinished c u ∧ ∀ v, ¬Waits K owner c u v := by
    intro k
    induction k with
    | zero =>
      intro t ht hlevel
      refine ⟨t,ht,fun v hwait => ?_⟩
      obtain ⟨s₀,call,next,l,hst,hl,-⟩ := hwait
      have := hlevel _ _ _ _ hst hl
      have := hrank l
      omega
    | succ k ih =>
      intro t ht hlevel
      by_cases hwaits : ∃ v, Waits K owner c t v
      · obtain ⟨v,s₀,call,next,l,hst,hl,howner⟩ := hwaits
        obtain ⟨hv,habove⟩ := holder_goes_on h howner
        refine ih v hv fun s₁ call' next' l' hst' hl' => ?_
        have := habove _ _ _ _ hst' hl'
        have := hlevel _ _ _ _ hst hl
        omega
      · exact ⟨t,ht,not_exists.mp hwaits⟩
  exact hlevels (n+1) t ht fun _ _ _ l _ _ => by omega

end locks
end System
end Interleaving
