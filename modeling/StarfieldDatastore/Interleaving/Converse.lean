import StarfieldDatastore.Interleaving.Total

/-! A program whose calls are answered by a peer that knows what has been said so far. -/
namespace Interleaving
namespace Program
variable {C : Type} {R : C → Type} {S α β ε : Type}

/-- Whatever the replies, the result satisfies `Q`. -/
def Returns (Q : α → Prop) : Program C R α → Prop
  | .done a => Q a
  | .call _ next => ∀ r, (next r).Returns Q

namespace Returns
variable {p : Program C R α} {Q Q' : α → Prop}

theorem mono (h : p.Returns Q) (hQ : ∀ a, Q a → Q' a) : p.Returns Q' := by
  induction p with
  | done a => exact hQ a h
  | call c next ih => exact fun r => ih r (h r)

theorem bind {f : α → Program C R β} {P : β → Prop} (h : p.Returns fun a => (f a).Returns P) :
    (p >>= f).Returns P := by
  induction p with
  | done a => exact h
  | call c next ih => exact fun r => ih r (h r)

theorem bind_run {x : ExceptT ε (Program C R) α} {f : α → ExceptT ε (Program C R) β} {P : Except ε β → Prop}
    (h : x.run.Returns fun r => match r with
      | .ok a => (f a).run.Returns P
      | .error e => P (.error e)) : (x >>= f).run.Returns P := by
  refine bind (p := x.run) (f := ExceptT.bindCont f) (h.mono fun r hr => ?_)
  cases r with
  | ok a => exact hr
  | error e => exact hr

theorem except_bind {x : Except ε α} {f : α → ExceptT ε (Program C R) β} {P : Except ε β → Prop}
    (herror : ∀ e, x = .error e → P (.error e)) (hok : ∀ a, x = .ok a → (f a).run.Returns P) :
    ((liftM x : ExceptT ε (Program C R) α) >>= f).run.Returns P := by
  cases x with
  | error e => exact herror e rfl
  | ok a => exact hok a rfl

/-- Nothing to show of what can be anything. -/
theorem of_all (h : ∀ a, Q a) : p.Returns Q := by
  induction p with
  | done a => exact h a
  | call c next ih => exact ih

theorem lift {P : Except ε α → Prop} (h : p.Returns fun a => P (.ok a)) :
    (liftM p : ExceptT ε (Program C R) α).run.Returns P :=
  bind (p := p) (f := fun a => .done (Except.ok a : Except ε α)) h

end Returns

/-- The result of a conversation and all that has been said, the latest first. -/
def converse (ask : List (Event C R) → (c : C) → R c) :
    Program C R α → List (Event C R) → α × List (Event C R)
  | .done a, log => (a,log)
  | .call c next, log => (next (ask log c)).converse ask (⟨c,ask log c⟩ :: log)

variable {ask : List (Event C R) → (c : C) → R c} {step : (c : C) → S → R c → S → Prop} {p : Program C R α}
  {P : C → Prop} {Q : α → S → Prop} {Q' : α → Prop} {s : S}

theorem Returns.converse (h : p.Returns Q') (ask : List (Event C R) → (c : C) → R c) (log : List (Event C R)) :
    Q' (p.converse ask log).1 := by
  induction p generalizing log with
  | done a => exact h
  | call c next ih => exact ih _ (h _) _

/-- What every run ends in is also what every result satisfies. -/
theorem Total.returns (h : p.Total step Q s) (hr : p.Returns Q') :
    p.Total step (fun a t => Q a t ∧ Q' a) s := by
  induction p generalizing s with
  | done a => exact ⟨h,hr⟩
  | call c next ih => exact ⟨h.1,fun r t ht => ih r (h.2 r t ht) (hr r)⟩

/-- A program whose calls all go to the peer, where the state remembers what was said. -/
theorem Total.of_converse (place : List (Event C R) → S) (hp : p.Only P)
    (hcan : ∀ c, P c → ∀ log, step c (place log) (ask log c) (place (⟨c,ask log c⟩ :: log)))
    (hask : ∀ c, P c → ∀ log r t, step c (place log) r t → r = ask log c ∧ t = place (⟨c,ask log c⟩ :: log))
    (log : List (Event C R)) :
    p.Total step (fun a t => a = (p.converse ask log).1 ∧ t = place (p.converse ask log).2) (place log) := by
  induction p generalizing log with
  | done a => exact ⟨rfl,rfl⟩
  | call c next ih =>
    refine ⟨⟨_,_,hcan c hp.1 log⟩,fun r t ht => ?_⟩
    obtain ⟨rfl,rfl⟩ := hask c hp.1 log r t ht
    exact ih _ (hp.2 _) _

end Program
end Interleaving
