import Mathlib.Logic.Relation
import Mathlib.Tactic.Basic
import Mathlib.Algebra.Ring.Nat

/-! Finite programs over a signature of calls. A program is the tree of its own
decisions: each reply of a call selects the rest. What a call does to shared state
is given separately, so one program has a sequential and a concurrent meaning. -/
namespace Interleaving

/-- A program over calls `C`, where call `c` is answered by a value of `R c`. -/
inductive Program (C : Type) (R : C → Type) (α : Type) : Type
  | done (a : α)
  | call (c : C) (next : R c → Program C R α)

namespace Program
variable {C : Type} {R : C → Type} {α β γ : Type}

def bind : Program C R α → (α → Program C R β) → Program C R β
  | .done a, f => f a
  | .call c next, f => .call c fun r => (next r).bind f

instance : Monad (Program C R) where
  pure := .done
  bind := bind

@[simp] theorem pure_eq (a : α) : (pure a : Program C R α) = .done a := rfl

@[simp] theorem done_bind (a : α) (f : α → Program C R β) : (Program.done a >>= f) = f a := rfl

@[simp] theorem call_bind (c : C) (next : R c → Program C R α) (f : α → Program C R β) :
    (Program.call c next >>= f) = .call c fun r => next r >>= f := rfl

/-- The program of a single call, returning its reply. -/
def perform (c : C) : Program C R (R c) := .call c .done

@[simp] theorem perform_bind (c : C) (f : R c → Program C R β) :
    (perform c >>= f) = .call c f := rfl

theorem bind_assoc (p : Program C R α) (f : α → Program C R β) (g : β → Program C R γ) :
    p >>= f >>= g = p >>= fun a => f a >>= g := by
  induction p with
  | done a => rfl
  | call c next ih =>
    simp only [call_bind]
    exact congrArg _ (funext ih)

@[simp] theorem bind_done (p : Program C R α) : p >>= Program.done = p := by
  induction p with
  | done a => rfl
  | call c next ih =>
    simp only [call_bind]
    exact congrArg _ (funext ih)

/-- Every call the program can make, whatever it was answered before, satisfies `P`. -/
def Only (P : C → Prop) : Program C R α → Prop
  | .done _ => True
  | .call c next => P c ∧ ∀ r, (next r).Only P

namespace Only
variable {P P' : C → Prop}

@[simp] theorem of_done (a : α) : (Program.done a : Program C R α).Only P := trivial

theorem perform {c : C} (h : P c) : (Program.perform c : Program C R (R c)).Only P :=
  ⟨h,fun _ => trivial⟩

theorem bind {p : Program C R α} {f : α → Program C R β}
    (hp : p.Only P) (hf : ∀ a, (f a).Only P) : (p >>= f).Only P := by
  induction p with
  | done a => exact hf a
  | call c next ih => exact ⟨hp.1,fun r => ih r (hp.2 r)⟩

/-- Composition of operations that can fail. -/
theorem bind_run {ε : Type} {x : ExceptT ε (Program C R) α} {f : α → ExceptT ε (Program C R) β}
    (hx : x.run.Only P) (hf : ∀ a, (f a).run.Only P) : (x >>= f).run.Only P :=
  bind hx fun r => match r with
    | .ok a => hf a
    | .error _ => trivial

theorem lift_except {ε : Type} (x : Except ε α) :
    (liftM x : ExceptT ε (Program C R) α).run.Only P := trivial

theorem lift {ε : Type} {p : Program C R α} (hp : p.Only P) :
    (liftM p : ExceptT ε (Program C R) α).run.Only P :=
  bind hp fun _ => trivial

theorem mono {p : Program C R α} (h : ∀ c, P c → P' c) (hp : p.Only P) : p.Only P' := by
  induction p with
  | done a => trivial
  | call c next ih => exact ⟨h c hp.1,fun r => ih r (hp.2 r)⟩

end Only

/-- One call of a run together with its reply. -/
abbrev Event (C : Type) (R : C → Type) := Σ c : C, R c

/-- The calls and replies of a run that has got somewhere, not necessarily to the end. -/
inductive Trace : Program C R α → List (Event C R) → Prop
  | start (p) : Trace p []
  | call {c next r events} (tail : Trace (next r) events) : Trace (.call c next) (⟨c,r⟩ :: events)

/-- The calls and replies of a complete run and its result. -/
inductive Finishes : Program C R α → List (Event C R) → α → Prop
  | done (a) : Finishes (.done a) [] a
  | call {c next r events a} (tail : Finishes (next r) events a) :
      Finishes (.call c next) (⟨c,r⟩ :: events) a

/-- The replies decide where a program ends and with what. -/
theorem Finishes.unique {p : Program C R α} {before after events : List (Event C R)} {a b : α}
    (hp : p.Finishes before a) (hq : p.Finishes after b) (hbefore : before <+: events)
    (hafter : after <+: events) : before = after ∧ a = b := by
  induction hp generalizing after events with
  | done a =>
    cases hq
    exact ⟨rfl,rfl⟩
  | call _ ih =>
    cases hq with
    | call tail =>
      obtain ⟨rest,rfl⟩ := hbefore
      rw [List.cons_append] at hafter
      obtain ⟨he,htail⟩ := List.cons_prefix_cons.mp hafter
      cases he
      obtain ⟨rfl,rfl⟩ := ih tail (List.prefix_append _ _) htail
      exact ⟨rfl,rfl⟩

theorem Finishes.trace {p : Program C R α} {events : List (Event C R)} {a : α}
    (h : p.Finishes events a) : p.Trace events := by
  induction h with
  | done a => exact .start _
  | call _ ih => exact .call ih

/-- A run of a sequential composition is still in its first part or has finished it. -/
theorem Trace.bind_cases {p : Program C R α} {f : α → Program C R β} {events : List (Event C R)}
    (h : (p >>= f).Trace events) : p.Trace events ∨
      ∃ before a after, events = before++after ∧ p.Finishes before a ∧ (f a).Trace after := by
  induction p generalizing events with
  | done a => exact .inr ⟨[],a,events,rfl,.done a,h⟩
  | call c next ih =>
    cases h with
    | start => exact .inl (.start _)
    | call tail =>
      rcases ih _ tail with h | ⟨before,a,after,rfl,hf,ht⟩
      · exact .inl (.call h)
      · exact .inr ⟨_,a,after,rfl,.call hf,ht⟩

/-- A complete run of a sequential composition, in its two parts. -/
theorem Finishes.bind_cases {p : Program C R α} {f : α → Program C R β} {events : List (Event C R)}
    {b : β} (h : (p >>= f).Finishes events b) :
    ∃ before a after, events = before++after ∧ p.Finishes before a ∧ (f a).Finishes after b := by
  induction p generalizing events with
  | done a => exact ⟨[],a,events,rfl,.done a,h⟩
  | call c next ih =>
    cases h with
    | call tail =>
      obtain ⟨before,a,after,rfl,hp,hf⟩ := ih _ tail
      exact ⟨_,a,after,rfl,.call hp,hf⟩

theorem Finishes.bind {p : Program C R α} {f : α → Program C R β} {before after : List (Event C R)} {a : α} {b : β}
    (hp : p.Finishes before a) (hf : (f a).Finishes after b) : (p >>= f).Finishes (before++after) b := by
  induction hp with
  | done a => exact hf
  | call _ ih => exact .call (ih hf)

/-- The second part of an operation that has failed is skipped. -/
theorem Finishes.bind_error {ε : Type} {x : ExceptT ε (Program C R) α} {f : α → ExceptT ε (Program C R) β}
    {events : List (Event C R)} {e : ε} (h : x.run.Finishes events (.error e)) :
    (x >>= f).run.Finishes events (.error e) := by
  have hdone : (ExceptT.bindCont f (.error e)).Finishes [] (.error e) := .done _
  have hboth := Finishes.bind (p := x.run) h hdone
  rwa [List.append_nil] at hboth

/-- An operation that succeeds has succeeded in both of its parts. -/
theorem Finishes.bind_run_ok {ε : Type} {x : ExceptT ε (Program C R) α}
    {f : α → ExceptT ε (Program C R) β} {events : List (Event C R)} {b : β}
    (h : (x >>= f).run.Finishes events (.ok b)) : ∃ before a after, events = before++after ∧
      x.run.Finishes before (.ok a) ∧ (f a).run.Finishes after (.ok b) := by
  obtain ⟨before,r,after,rfl,hx,hf⟩ := Finishes.bind_cases (p := x.run) h
  cases r with
  | ok a => exact ⟨before,a,after,rfl,hx,hf⟩
  | error e => cases hf

/-- However it is answered, what the program has spent never exceeds `n`. -/
def Spends (cost : Event C R → ℕ) (p : Program C R α) (n : ℕ) : Prop :=
  ∀ events, p.Trace events → (events.map cost).sum ≤ n

namespace Spends
variable {cost : Event C R → ℕ} {p : Program C R α} {m n : ℕ}

theorem bind {f : α → Program C R β} (hp : p.Spends cost m) (hf : ∀ a, (f a).Spends cost n) :
    (p >>= f).Spends cost (m+n) := by
  intro events h
  rcases h.bind_cases with h | ⟨before,a,after,rfl,hb,ha⟩
  · have := hp events h
    omega
  · have := hp before hb.trace
    have := hf a after ha
    simp only [List.map_append,List.sum_append]
    omega

theorem bind_run {ε : Type} {x : ExceptT ε (Program C R) α} {f : α → ExceptT ε (Program C R) β}
    (hx : x.run.Spends cost m) (hf : ∀ a, (f a).run.Spends cost n) :
    (x >>= f).run.Spends cost (m+n) := by
  refine bind hx fun r => ?_
  cases r with
  | ok a => exact hf a
  | error e =>
    intro events h
    cases h
    simp

theorem of_only (h : p.Only fun c => ∀ r, cost ⟨c,r⟩ = 0) : p.Spends cost 0 := by
  intro events ht
  induction ht with
  | start p => simp
  | call tail ih =>
    have := ih (h.2 _)
    simp only [List.map_cons,List.sum_cons,h.1]
    omega

theorem mono (h : p.Spends cost m) (hle : m ≤ n) : p.Spends cost n :=
  fun events ht => Nat.le_trans (h events ht) hle

/-- What is left to spend after a call. -/
theorem call {c : C} {next : R c → Program C R α} (h : (Program.call c next).Spends cost n) (r : R c) :
    cost ⟨c,r⟩ ≤ n ∧ (next r).Spends cost (n-cost ⟨c,r⟩) := by
  have hle : cost ⟨c,r⟩ ≤ n := by
    have := h [⟨c,r⟩] (.call (.start _))
    simpa using this
  refine ⟨hle,fun events ht => ?_⟩
  have := h _ (.call ht)
  simp only [List.map_cons,List.sum_cons] at this
  omega

end Spends

variable {S : Type} {step : (c : C) → S → R c → S → Prop}

/-- Big-step meaning in one thread: `step c s r s'` says that call `c` may take the
shared state from `s` to `s'` and be answered by `r`. -/
inductive Runs (step : (c : C) → S → R c → S → Prop) :
    Program C R α → S → List (Event C R) → α → S → Prop
  | done (a s) : Runs step (.done a) s [] a s
  | call {c next s r s' events a s''} (head : step c s r s')
      (tail : Runs step (next r) s' events a s'') :
      Runs step (.call c next) s (⟨c,r⟩ :: events) a s''

/-- A run that has got somewhere, with the state it has got to. -/
inductive Partly (step : (c : C) → S → R c → S → Prop) :
    Program C R α → S → List (Event C R) → S → Prop
  | start (p s) : Partly step p s [] s
  | call {c next s r s' events s''} (head : step c s r s')
      (tail : Partly step (next r) s' events s'') :
      Partly step (.call c next) s (⟨c,r⟩ :: events) s''

theorem Runs.finishes {p : Program C R α} {s s' : S} {events : List (Event C R)} {a : α}
    (h : p.Runs step s events a s') : p.Finishes events a := by
  induction h with
  | done a s => exact .done a
  | call _ _ ih => exact .call ih

theorem Partly.trace {p : Program C R α} {s s' : S} {events : List (Event C R)}
    (h : p.Partly step s events s') : p.Trace events := by
  induction h with
  | start p s => exact .start _
  | call _ _ ih => exact .call ih

/-- A complete run of a sequential composition, in its two parts. -/
theorem Runs.bind_cases {p : Program C R α} {f : α → Program C R β} {s t : S}
    {events : List (Event C R)} {b : β} (h : (p >>= f).Runs step s events b t) :
    ∃ before a u after, events = before++after ∧ p.Runs step s before a u ∧
      (f a).Runs step u after b t := by
  induction p generalizing s events with
  | done a => exact ⟨[],a,s,events,rfl,.done a s,h⟩
  | call c next ih =>
    cases h with
    | call head tail =>
      obtain ⟨before,a,u,after,rfl,hp,hf⟩ := ih _ tail
      exact ⟨_,a,u,after,rfl,.call head hp,hf⟩

/-- A run of a composition of operations that can fail: an error skips the second part. -/
theorem Runs.bind_run_cases {ε : Type} {x : ExceptT ε (Program C R) α}
    {f : α → ExceptT ε (Program C R) β} {s t : S} {events : List (Event C R)} {r : Except ε β}
    (h : (x >>= f).run.Runs step s events r t) :
    (∃ e, r = .error e ∧ x.run.Runs step s events (.error e) t) ∨
    ∃ before a u after, events = before++after ∧ x.run.Runs step s before (.ok a) u ∧
      (f a).run.Runs step u after r t := by
  obtain ⟨before,r',u,after,rfl,hx,hf⟩ := Runs.bind_cases (p := x.run) h
  cases r' with
  | ok a => exact .inr ⟨before,a,u,after,rfl,hx,hf⟩
  | error e =>
    cases hf
    exact .inl ⟨e,rfl,by rwa [List.append_nil]⟩

/-- The same run among more steps. -/
theorem Runs.mono {step' : (c : C) → S → R c → S → Prop} (h : ∀ c s r s', step c s r s' → step' c s r s')
    {p : Program C R α} {s s' : S} {events : List (Event C R)} {a : α} (hr : p.Runs step s events a s') :
    p.Runs step' s events a s' := by
  induction hr with
  | done a s => exact .done a s
  | call head _ ih => exact .call (h _ _ _ _ head) ih

theorem Runs.bind {p : Program C R α} {f : α → Program C R β} {s u t : S}
    {before after : List (Event C R)} {a : α} {b : β} (hp : p.Runs step s before a u)
    (hf : (f a).Runs step u after b t) : (p >>= f).Runs step s (before++after) b t := by
  induction hp with
  | done a s => exact hf
  | call head _ ih => exact .call head (ih hf)

theorem Runs.bind_run {ε : Type} {x : ExceptT ε (Program C R) α} {f : α → ExceptT ε (Program C R) β}
    {s u t : S} {before after : List (Event C R)} {a : α} {r : Except ε β}
    (hx : x.run.Runs step s before (.ok a) u) (hf : (f a).run.Runs step u after r t) :
    (x >>= f).run.Runs step s (before++after) r t := Runs.bind (p := x.run) hx hf

theorem Runs.lift {ε : Type} {p : Program C R α} {s t : S} {events : List (Event C R)} {a : α}
    (h : p.Runs step s events a t) :
    (liftM p : ExceptT ε (Program C R) α).run.Runs step s events (.ok a) t := by
  have hr : (p >>= fun a => .done (Except.ok a : Except ε α)).Runs step s (events++[]) (.ok a) t :=
    h.bind (.done _ _)
  rwa [List.append_nil] at hr

theorem Runs.of_lift {ε : Type} {p : Program C R α} {s t : S} {events : List (Event C R)}
    {r : Except ε α} (h : (liftM p : ExceptT ε (Program C R) α).run.Runs step s events r t) :
    ∃ a, r = .ok a ∧ p.Runs step s events a t := by
  obtain ⟨before,a,u,after,rfl,hp,hf⟩ := Runs.bind_cases (p := p) h
  cases hf
  exact ⟨a,rfl,by rwa [List.append_nil]⟩

/-- A quantity that each call raises by at most its cost is bounded by the costs so far. -/
theorem Partly.cost_le {p : Program C R α} {s s' : S} {events : List (Event C R)}
    (size : S → ℕ) (cost : Event C R → ℕ)
    (hstep : ∀ c s r s', step c s r s' → size s' ≤ size s+cost ⟨c,r⟩)
    (h : p.Partly step s events s') : size s' ≤ size s+(events.map cost).sum := by
  induction h with
  | start p s => simp
  | call head _ ih =>
    have := hstep _ _ _ _ head
    simp only [List.map_cons,List.sum_cons]
    omega

/-- Every call of a complete run obeys what the program tree allows. -/
theorem Only.of_finishes {P : C → Prop} {p : Program C R α} {events : List (Event C R)} {a : α}
    (hp : p.Only P) (h : p.Finishes events a) : ∀ e ∈ events, P e.1 := by
  induction h with
  | done a => intro e he; cases he
  | call tail ih =>
    intro e he
    rcases List.mem_cons.mp he with rfl | he
    · exact hp.1
    · exact ih (hp.2 _) e he

end Program
end Interleaving
