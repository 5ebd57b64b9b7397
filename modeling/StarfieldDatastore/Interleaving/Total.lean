import StarfieldDatastore.Interleaving.Program

/-! Total correctness of a program that runs alone: no call of it gets stuck, and every
run ends in the postcondition. Programs are finite, so that is all there is to show. -/
namespace Interleaving
namespace Program
variable {C : Type} {R : C → Type} {S α β ε : Type} {step : (c : C) → S → R c → S → Prop}

/-- From `s` every call can be made, and whatever the replies the result satisfies `Q`. -/
def Total (step : (c : C) → S → R c → S → Prop) :
    Program C R α → (α → S → Prop) → S → Prop
  | .done a, Q, s => Q a s
  | .call c next, Q, s =>
    (∃ r t, step c s r t) ∧ ∀ r t, step c s r t → (next r).Total step Q t

namespace Total
variable {p : Program C R α} {Q Q' : α → S → Prop} {s : S}

theorem mono (h : p.Total step Q s) (hQ : ∀ a t, Q a t → Q' a t) : p.Total step Q' s := by
  induction p generalizing s with
  | done a => exact hQ a s h
  | call c next ih => exact ⟨h.1,fun r t ht => ih r (h.2 r t ht)⟩

theorem bind {f : α → Program C R β} {P : β → S → Prop}
    (h : p.Total step (fun a t => (f a).Total step P t) s) : (p >>= f).Total step P s := by
  induction p generalizing s with
  | done a => exact h
  | call c next ih => exact ⟨h.1,fun r t ht => ih r (h.2 r t ht)⟩

theorem bind_run {x : ExceptT ε (Program C R) α} {f : α → ExceptT ε (Program C R) β}
    {P : Except ε β → S → Prop}
    (h : x.run.Total step (fun r t => match r with
      | .ok a => (f a).run.Total step P t
      | .error e => P (.error e) t) s) : (x >>= f).run.Total step P s := by
  refine bind (p := x.run) (f := ExceptT.bindCont f) (h.mono fun r t ht => ?_)
  cases r with
  | ok a => exact ht
  | error e => exact ht

theorem lift {P : Except ε α → S → Prop} (h : p.Total step (fun a t => P (.ok a) t) s) :
    (liftM p : ExceptT ε (Program C R) α).run.Total step P s :=
  bind (p := p) (f := fun a => .done (Except.ok a : Except ε α)) h

theorem perform_bind {c : C} {f : R c → Program C R β} {P : β → S → Prop}
    (hcan : ∃ r t, step c s r t) (h : ∀ r t, step c s r t → (f r).Total step P t) :
    (perform c >>= f).Total step P s := ⟨hcan,h⟩

/-- The same among other steps, where a call that can be made has no more outcomes. -/
theorem restep {step' : (c : C) → S → R c → S → Prop}
    (hstep : ∀ c s, (∃ r t, step c s r t) →
      (∃ r t, step' c s r t) ∧ ∀ r t, step' c s r t → step c s r t)
    (h : p.Total step Q s) : p.Total step' Q s := by
  induction p generalizing s with
  | done a => exact h
  | call c next ih =>
    obtain ⟨hcan,hall⟩ := hstep c s h.1
    exact ⟨hcan,fun r t ht => ih r (h.2 r t (hall r t ht))⟩

/-- The postcondition holds at the end of every run. -/
theorem of_runs {events : List (Event C R)} {a : α} {t : S} (h : p.Total step Q s)
    (hr : p.Runs step s events a t) : Q a t := by
  induction hr with
  | done a s => exact h
  | call head _ ih => exact ih (h.2 _ _ head)

/-- There is a run. -/
theorem exists_runs (h : p.Total step Q s) : ∃ events a t, p.Runs step s events a t := by
  induction p generalizing s with
  | done a => exact ⟨[],a,s,.done a s⟩
  | call c next ih =>
    obtain ⟨⟨r,t,ht⟩,hnext⟩ := h
    obtain ⟨events,a,u,hr⟩ := ih r (hnext r t ht)
    exact ⟨_,a,u,.call ht hr⟩

/-- The same beside a part of the state that the calls of the program do not touch. -/
theorem beside {X : Type} {P : C → Prop} {step' : (c : C) → S × X → R c → S × X → Prop} {x : X}
    (hp : p.Only P) (hstep : ∀ c, P c → ∀ s r u, step' c (s,x) r u ↔ step c s r u.1 ∧ u.2 = x)
    (h : p.Total step Q s) : p.Total step' (fun a u => Q a u.1 ∧ u.2 = x) (s,x) := by
  induction p generalizing s with
  | done a => exact ⟨h,rfl⟩
  | call c next ih =>
    obtain ⟨⟨r,t,ht⟩,hnext⟩ := h
    refine ⟨⟨r,(t,x),(hstep c hp.1 s r _).mpr ⟨ht,rfl⟩⟩,?_⟩
    rintro r ⟨t,y⟩ ht
    obtain ⟨hs,hx⟩ := (hstep c hp.1 s r (t,y)).mp ht
    subst hx
    exact ih r (hp.2 r) (hnext r t hs)

end Total
end Program
end Interleaving
