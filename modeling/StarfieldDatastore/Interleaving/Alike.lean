import StarfieldDatastore.Interleaving.Program
import Mathlib.Data.List.Forall2

/-! Two programs side by side. As long as alike calls are answered alike they make alike
calls, and they end with related results. -/
namespace Interleaving

/-- When two calls count as alike, and when two calls with their replies do. -/
structure Likeness (C : Type) (R : C → Type) where
  call : C → C → Prop
  event : Program.Event C R → Program.Event C R → Prop

/-- Both succeed with related values, or both fail with the same error. -/
inductive Agree {ε α β : Type} (Q : α → β → Prop) : Except ε α → Except ε β → Prop
  | ok {a b} (h : Q a b) : Agree Q (.ok a) (.ok b)
  | error (e) : Agree Q (.error e) (.error e)

theorem Agree.eq {ε α : Type} {x y : Except ε α} (h : Agree Eq x y) : x = y := by
  cases h with
  | ok h => rw [h]
  | error e => rfl

theorem Agree.of_eq {ε α : Type} {x y : Except ε α} (h : x = y) : Agree Eq x y := by
  subst h
  cases x with
  | ok a => exact .ok rfl
  | error e => exact .error e

theorem Agree.refl {ε α : Type} {Q : α → α → Prop} (hQ : ∀ a, Q a a) (x : Except ε α) : Agree Q x x := by
  cases x with
  | ok a => exact .ok (hQ a)
  | error e => exact .error e

namespace Program
variable {C : Type} {R : C → Type} {L : Likeness C R} {α β γ δ ε : Type}

/-- The programs make alike calls for as long as these are answered alike, and end with
results that are related by `Q`. -/
inductive Alike (L : Likeness C R) (Q : α → β → Prop) : Program C R α → Program C R β → Prop
  | done {a b} (h : Q a b) : Alike L Q (.done a) (.done b)
  | call {c c' next next'} (hc : L.call c c')
      (h : ∀ r r', L.event ⟨c,r⟩ ⟨c',r'⟩ → Alike L Q (next r) (next' r')) :
      Alike L Q (.call c next) (.call c' next')

/-- Alike calls at the same place of two runs were answered alike. -/
def AnsweredAlike (L : Likeness C R) (events events' : List (Event C R)) : Prop :=
  ∀ (i : ℕ) (e e' : Event C R), events[i]? = some e → events'[i]? = some e' → L.call e.1 e'.1 → L.event e e'

theorem AnsweredAlike.of_forall₂ {events events' : List (Event C R)} (h : List.Forall₂ L.event events events') :
    AnsweredAlike L events events' := by
  induction h with
  | nil => exact fun i e e' he => by cases he
  | cons head _ ih =>
    intro i e e' he he' hc
    cases i with
    | zero =>
      cases he
      cases he'
      exact head
    | succ i => exact ih i e e' he he' hc

namespace Alike
variable {Q : α → β → Prop} {p : Program C R α} {p' : Program C R β}

theorem mono {Q' : α → β → Prop} (hQ : ∀ a b, Q a b → Q' a b) (h : Alike L Q p p') : Alike L Q' p p' := by
  induction h with
  | done h => exact .done (hQ _ _ h)
  | call hc _ ih => exact .call hc ih

theorem bind {P : γ → δ → Prop} {f : α → Program C R γ} {f' : β → Program C R δ} (h : Alike L Q p p')
    (hf : ∀ a b, Q a b → Alike L P (f a) (f' b)) : Alike L P (p >>= f) (p' >>= f') := by
  induction h with
  | done h => exact hf _ _ h
  | call hc _ ih => exact .call hc ih

/-- Composition of operations that can fail. -/
theorem bind_run {P : γ → δ → Prop} {x : ExceptT ε (Program C R) α} {x' : ExceptT ε (Program C R) β}
    {f : α → ExceptT ε (Program C R) γ} {f' : β → ExceptT ε (Program C R) δ} (h : Alike L (Agree Q) x.run x'.run)
    (hf : ∀ a b, Q a b → Alike L (Agree P) (f a).run (f' b).run) :
    Alike L (Agree P) (x >>= f).run (x' >>= f').run := by
  have hbind : Alike L (Agree P) (x.run >>= ExceptT.bindCont f) (x'.run >>= ExceptT.bindCont f') := by
    refine h.bind fun r r' hr => ?_
    cases hr with
    | ok h => exact hf _ _ h
    | error e => exact .done (.error e)
  exact hbind

theorem lift (h : Alike L Q p p') : Alike L (Agree Q) (liftM p : ExceptT ε (Program C R) α).run
    (liftM p' : ExceptT ε (Program C R) β).run :=
  bind h fun _ _ hQ => .done (.ok hQ)

/-- A program beside itself, if it makes only calls that are alike when they are the same. -/
theorem of_only {P : C → Prop} (hP : ∀ c, P c → L.call c c ∧ ∀ r r', L.event ⟨c,r⟩ ⟨c,r'⟩ → r = r')
    {p : Program C R α} (h : p.Only P) : Alike L Eq p p := by
  induction p with
  | done a => exact .done rfl
  | call c next ih =>
    obtain ⟨hcall,hsame⟩ := hP c h.1
    refine .call hcall fun r r' hr => ?_
    rw [hsame r r' hr]
    exact ih r' (h.2 r')

/-- Two complete runs that are answered alike. -/
theorem finishes {events events' : List (Event C R)} {a : α} {b : β} (h : Alike L Q p p')
    (hp : p.Finishes events a) (hp' : p'.Finishes events' b) (halike : AnsweredAlike L events events') :
    Q a b ∧ List.Forall₂ L.event events events' := by
  induction h generalizing events events' with
  | done h =>
    cases hp
    cases hp'
    exact ⟨h,.nil⟩
  | call hc _ ih =>
    cases hp with
    | call tail =>
      cases hp' with
      | call tail' =>
        have hhead := halike 0 _ _ rfl rfl hc
        obtain ⟨hQ,hevents⟩ := ih _ _ hhead tail tail' fun i => halike (i+1)
        exact ⟨hQ,.cons hhead hevents⟩

end Alike
end Program
end Interleaving
