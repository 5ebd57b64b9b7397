import StarfieldDatastore.Interleaving.Converse
import StarfieldDatastore.Interleaving.Pool
import StarfieldDatastore.Interleaving.Query

/-! What a program may call, and when. The calls of one program among others are subject
to a condition on the state in which each of them is made. -/
namespace Interleaving
namespace Program
variable {C : Type} {R : C → Type} {S α β ε : Type}

/-- `Holds`, and each call is made in a state in which it is allowed. -/
def Asks (E : Setting C R S) (P : C → S → Prop) : Program C R α → (α → S → Prop) → S → Prop
  | .done a, Q, s => ∀ t, E.rely s t → Q a t
  | .call c next, Q, s => ∀ t, E.rely s t → P c t ∧ ∀ r u, E.step c t r u →
      E.guar t u ∧ (next r).Asks E P Q u

/-- Answered by `ask`, the program makes only calls in `P`. -/
def Meets (ask : (c : C) → R c) (P : C → Prop) : Program C R α → Prop
  | .done _ => True
  | .call c next => P c ∧ (next (ask c)).Meets ask P

namespace Meets
variable {ask : (c : C) → R c} {P : C → Prop}

theorem bind {p : Program C R α} {f : α → Program C R β} (hp : p.Meets ask P)
    (hf : (f (p.consult ask)).Meets ask P) : (p >>= f).Meets ask P := by
  induction p with
  | done a => exact hf
  | call c next ih => exact ⟨hp.1,ih _ hp.2 hf⟩

theorem bind_run {x : ExceptT ε (Program C R) α} {f : α → ExceptT ε (Program C R) β} {a : α}
    (hx : x.run.Meets ask P) (ha : x.run.consult ask = .ok a) (hf : (f a).run.Meets ask P) :
    (x >>= f).run.Meets ask P := by
  refine bind (p := x.run) (f := ExceptT.bindCont f) hx ?_
  rw [ha]
  exact hf

theorem of_only {p : Program C R α} (hp : p.Only P) : p.Meets ask P := by
  induction p with
  | done a => trivial
  | call c next ih => exact ⟨hp.1,ih _ (hp.2 _)⟩

end Meets

namespace Asks
variable {E : Setting C R S} {P : C → S → Prop} {p : Program C R α} {Q Q' : α → S → Prop} {s t : S}

theorem holds (h : p.Asks E P Q s) : p.Holds E Q s := by
  induction p generalizing s with
  | done a => exact h
  | call c next ih =>
    intro t ht r u hu
    obtain ⟨hg,hn⟩ := (h t ht).2 r u hu
    exact ⟨hg,ih r hn⟩

theorem stable (h : p.Asks E P Q s) (hst : E.rely s t) : p.Asks E P Q t := by
  cases p with
  | done a => exact fun u hu => h u (E.rely_trans hst hu)
  | call c next => exact fun u hu => h u (E.rely_trans hst hu)

theorem mono (h : p.Asks E P Q s) (hQ : ∀ a t, Q a t → Q' a t) : p.Asks E P Q' s := by
  induction p generalizing s with
  | done a => exact fun t ht => hQ a t (h t ht)
  | call c next ih =>
    intro t ht
    obtain ⟨hp,hn⟩ := h t ht
    exact ⟨hp,fun r u hu => ⟨(hn r u hu).1,ih r (hn r u hu).2⟩⟩

theorem bind {f : α → Program C R β} {Q' : β → S → Prop}
    (h : p.Asks E P (fun a t => (f a).Asks E P Q' t) s) : (p >>= f).Asks E P Q' s := by
  induction p generalizing s with
  | done a => exact h s (E.rely_refl s)
  | call c next ih =>
    intro t ht
    obtain ⟨hp,hn⟩ := h t ht
    exact ⟨hp,fun r u hu => ⟨(hn r u hu).1,ih r (hn r u hu).2⟩⟩

theorem perform_bind {c : C} {f : R c → Program C R β} {Q : β → S → Prop}
    (h : ∀ t, E.rely s t → P c t ∧ ∀ r u, E.step c t r u → E.guar t u ∧ (f r).Asks E P Q u) :
    (perform c >>= f).Asks E P Q s := h

/-- Sequential composition of operations that can fail: an error skips the rest. -/
theorem bind_run {x : ExceptT ε (Program C R) α} {f : α → ExceptT ε (Program C R) β}
    {Q : Except ε β → S → Prop}
    (h : x.run.Asks E P (fun r t => match r with
      | .ok a => (f a).run.Asks E P Q t
      | .error e => ∀ u, E.rely t u → Q (.error e) u) s) : (x >>= f).run.Asks E P Q s := by
  refine Asks.bind (p := x.run) (f := ExceptT.bindCont f) (h.mono fun r t ht => ?_)
  cases r with
  | ok a => exact ht
  | error e => exact ht

/-- What holds of a program whose calls are all allowed as long as `A` holds, which they
keep as well as the others. -/
theorem of_holds {P' : C → Prop} {A : S → Prop} (h : p.Holds E Q s) (hp : p.Only P')
    (hrely : ∀ s t, E.rely s t → A s → A t) (hallowed : ∀ c s, P' c → A s → P c s)
    (hstep : ∀ c s r t, P' c → A s → E.step c s r t → A t) (hs : A s) :
    p.Asks E P (fun a t => Q a t ∧ A t) s := by
  induction p generalizing s with
  | done a => exact fun t ht => ⟨h t ht,hrely s t ht hs⟩
  | call c next ih =>
    intro t ht
    have hA := hrely s t ht hs
    refine ⟨hallowed c t hp.1 hA,fun r u hu => ?_⟩
    obtain ⟨hg,hn⟩ := h t ht r u hu
    exact ⟨hg,ih r hn (hp.2 r) (hstep c t r u hp.1 hA hu)⟩

/-- What holds of a program whose calls are always allowed. -/
theorem of_allowed {P' : C → Prop} (h : p.Holds E Q s) (hp : p.Only P')
    (hallowed : ∀ c s, P' c → P c s) : p.Asks E P Q s :=
  (of_holds (A := fun _ => True) h hp (fun _ _ _ _ => trivial) (fun c s hc _ => hallowed c s hc)
    (fun _ _ _ _ _ _ _ => trivial) trivial).mono fun _ _ h => h.1

/-- A program whose calls are answered in one way as long as `A` holds, which they keep as well as
the others, returns what it computes from these answers. -/
theorem of_consult {ask : (c : C) → R c} {P' : C → Prop} {A : S → Prop} (hp : p.Meets ask P')
    (hrely : ∀ s t, E.rely s t → A s → A t) (hstep : ∀ c s, P' c → A s → P c s ∧ ∀ r t,
      E.step c s r t → E.guar s t ∧ A t ∧ r = ask c) (hs : A s) :
    p.Asks E P (fun a t => a = p.consult ask ∧ A t) s := by
  induction p generalizing s with
  | done a => exact fun t ht => ⟨rfl,hrely s t ht hs⟩
  | call c next ih =>
    intro t ht
    obtain ⟨hallowed,hn⟩ := hstep c t hp.1 (hrely s t ht hs)
    refine ⟨hallowed,fun r u hu => ?_⟩
    obtain ⟨hg,hA,rfl⟩ := hn r u hu
    exact ⟨hg,ih _ hp.2 hA⟩

/-- What is asked for, together with what every result satisfies. -/
theorem returns {Q' : α → Prop} (h : p.Asks E P Q s) (hr : p.Returns Q') :
    p.Asks E P (fun a t => Q a t ∧ Q' a) s := by
  induction p generalizing s with
  | done a => exact fun t ht => ⟨h t ht,hr⟩
  | call c next ih =>
    intro t ht
    obtain ⟨hp,hn⟩ := h t ht
    exact ⟨hp,fun r u hu => ⟨(hn r u hu).1,ih r (hn r u hu).2 (hr r)⟩⟩

/-- Every step is one that the setting has. -/
theorem caused (h : p.Asks E P Q s) :
    p.Asks { E with guar := fun s t => E.guar s t ∧ ∃ c r, E.step c s r t } P Q s := by
  induction p generalizing s with
  | done a => exact h
  | call c next ih =>
    intro t ht
    obtain ⟨hp,hn⟩ := h t ht
    exact ⟨hp,fun r u hu => ⟨⟨(hn r u hu).1,c,r,hu⟩,ih r (hn r u hu).2⟩⟩

/-- A guarantee that some other condition makes of the same calls. -/
theorem and_guar {E' : Setting C R S} (hrely : ∀ s t, E.rely s t → E'.rely s t)
    (hstep : ∀ c s r t, E.step c s r t → E'.step c s r t)
    (h : p.Asks E P Q s) (h' : p.Holds E' Q' s) :
    p.Asks { E with guar := fun s t => E.guar s t ∧ E'.guar s t } P (fun a t => Q a t ∧ Q' a t) s := by
  induction p generalizing s with
  | done a => exact fun t ht => ⟨h t ht,h' t (hrely s t ht)⟩
  | call c next ih =>
    intro t ht
    obtain ⟨hp,hn⟩ := h t ht
    refine ⟨hp,fun r u hu => ?_⟩
    obtain ⟨hg,hn⟩ := hn r u hu
    obtain ⟨hg',hn'⟩ := h' t (hrely s t ht) r u (hstep c t r u hu)
    exact ⟨⟨hg,hg'⟩,ih r hn hn'⟩

end Asks
end Program

namespace System
variable {T C : Type} {R : C → Type} {S α : Type}

/-- In every reachable configuration, the call that a thread is about to make is allowed. -/
theorem Discipline.asks_of_reaches [DecidableEq T] {sys : System T C R S α} (d : Discipline sys)
    {P : T → C → S → Prop} (hlaunch : ∀ {t s p}, sys.launch t s p → d.pre t s →
      p.Asks (d.setting t) (P t) (d.post t s) s) {s : S} (hinv : d.inv s) (hpre : ∀ t, d.pre t s)
    {c : Config T C R S α} (hr : sys.Reaches (init s) c) :
    ∀ t s₀ p, c.thread t = .running s₀ p → p.Asks (d.setting t) (P t) (d.post t s₀) c.state := by
  induction hr with
  | refl => exact fun t s₀ p h => by cases h
  | tail hp hn ih =>
    have hsound := d.sound_of_reaches (d.sound_init hinv hpre) hp
    -- the thread that moves has its own knowledge, the others keep theirs
    have others : ∀ {c : Config T C R S α} {t st s'}, (∀ t s₀ p, c.thread t = .running s₀ p →
        p.Asks (d.setting t) (P t) (d.post t s₀) c.state) → (∀ u, t ≠ u → d.rely u c.state s') →
        (∀ s₀ p, st = .running s₀ p → p.Asks (d.setting t) (P t) (d.post t s₀) s') →
        ∀ u s₀ p, Function.update c.thread t st u = .running s₀ p →
          p.Asks (d.setting u) (P u) (d.post u s₀) s' := by
      intro c t st s' hall hrely hst u s₀ p hu
      by_cases hut : u = t
      · subst u
        rw [Function.update_self] at hu
        exact hst s₀ p hu
      · rw [Function.update_of_ne hut] at hu
        exact (hall u s₀ p hu).stable (hrely u (Ne.symm hut))
    cases hn with
    | launch hf hm =>
      rename_i t p
      refine others ih (fun u _ => d.rely_refl u _) fun s₀ p hp => ?_
      cases hp
      have hpre := hsound.good t
      rw [hf] at hpre
      exact hlaunch hm hpre
    | call hrun hd =>
      rename_i t s₀ cl next r s'
      obtain ⟨-,hn⟩ := ih t s₀ _ hrun _ (d.rely_refl t _)
      obtain ⟨hg,hnext⟩ := hn r s' ⟨hsound.inv,hd⟩
      refine others ih (fun u hu => d.guar_rely hu hsound.inv hg) fun s₁ p hp => ?_
      cases hp
      exact hnext
    | finish _ => exact others ih (fun u _ => d.rely_refl u _) fun s₀ p hp => by cases hp
    | kill _ hd => exact others ih (fun u hu => d.kill_rely hu hsound.inv hd) fun s₀ p hp => by cases hp

end System
end Interleaving
