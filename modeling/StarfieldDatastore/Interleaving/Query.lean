import StarfieldDatastore.Interleaving.Total

/-! Programs that only ask. Their answers are a function of the state, so such a program
is the function that it computes. -/
namespace Interleaving
namespace Program
variable {C : Type} {R : C → Type} {S α β ε : Type} {ask : (c : C) → R c}

/-- The result of a program whose every call `c` is answered by `ask c`. -/
def consult (ask : (c : C) → R c) : Program C R α → α
  | .done a => a
  | .call c next => (next (ask c)).consult ask

@[simp] theorem consult_done (a : α) : (Program.done a : Program C R α).consult ask = a := rfl

@[simp] theorem consult_call (c : C) (next : R c → Program C R α) :
    (Program.call c next).consult ask = (next (ask c)).consult ask := rfl

@[simp] theorem consult_perform (c : C) : (perform c : Program C R (R c)).consult ask = ask c := rfl

@[simp] theorem consult_bind (p : Program C R α) (f : α → Program C R β) :
    (p >>= f).consult ask = (f (p.consult ask)).consult ask := by
  induction p with
  | done a => rfl
  | call c next ih => exact ih (ask c)

@[simp] theorem consult_bind_run (x : ExceptT ε (Program C R) α) (f : α → ExceptT ε (Program C R) β) :
    (x >>= f).run.consult ask = (match x.run.consult ask with
      | .ok a => (f a).run.consult ask
      | .error e => .error e) := by
  refine (consult_bind x.run (ExceptT.bindCont f)).trans ?_
  cases x.run.consult ask <;> rfl

@[simp] theorem consult_pure_run (a : α) :
    (pure a : ExceptT ε (Program C R) α).run.consult ask = .ok a := rfl

@[simp] theorem consult_throw_run (e : ε) :
    (throw e : ExceptT ε (Program C R) α).run.consult ask = .error e := rfl

@[simp] theorem consult_lift_run (p : Program C R α) :
    (liftM p : ExceptT ε (Program C R) α).run.consult ask = .ok (p.consult ask) :=
  consult_bind p fun a => .done (Except.ok a)

@[simp] theorem consult_lift_except (x : Except ε α) :
    (liftM x : ExceptT ε (Program C R) α).run.consult ask = x := rfl

variable {step : (c : C) → S → R c → S → Prop} {P : C → Prop} {p : Program C R α} {s : S}

/-- A program that only asks what the state answers leaves the state alone and returns
what it computes. -/
theorem Total.of_consult (hp : p.Only P) (hcan : ∀ c, P c → step c s (ask c) s)
    (hask : ∀ c, P c → ∀ r t, step c s r t → r = ask c ∧ t = s) :
    p.Total step (fun a t => a = p.consult ask ∧ t = s) s := by
  induction p with
  | done a => exact ⟨rfl,rfl⟩
  | call c next ih =>
    refine ⟨⟨_,_,hcan c hp.1⟩,fun r t ht => ?_⟩
    obtain ⟨rfl,rfl⟩ := hask c hp.1 r t ht
    exact ih _ (hp.2 _)

/-- The run in which every call is answered that way. -/
theorem finishes_consult (p : Program C R α) (ask : (c : C) → R c) : ∃ events, p.Finishes events (p.consult ask) := by
  induction p with
  | done a => exact ⟨[],.done a⟩
  | call c next ih =>
    obtain ⟨events,h⟩ := ih (ask c)
    exact ⟨_,.call h⟩

end Program
end Interleaving
