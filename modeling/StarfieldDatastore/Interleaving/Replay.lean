import StarfieldDatastore.Interleaving.Pool

/-! Runs that are computed: where a call can be performed by a function, so can a program, for as
many calls as one likes. -/
namespace Interleaving
namespace Program
variable {C : Type} {R : C → Type} {S α : Type}

/-- The first `n` calls of a program, or all of them if it makes fewer. -/
def replay (exec : (c : C) → S → Option (R c × S)) : ℕ → Program C R α → S → Option (Program C R α × S)
  | 0, p, s => some (p,s)
  | _+1, .done a, s => some (.done a,s)
  | n+1, .call c next, s =>
    match exec c s with
    | none => none
    | some (r,s') => replay exec n (next r) s'

/-- What a program has returned, if it is at its end. -/
def result : Program C R α → Option α
  | .done a => some a
  | .call _ _ => none

/-- Within `n` calls the program is at an end that passes the check. -/
def replays (exec : (c : C) → S → Option (R c × S)) (n : ℕ) (p : Program C R α) (s : S) (check : α → S → Bool) :
    Bool :=
  (p.replay exec n s).any fun last => last.1.result.any fun a => check a last.2

theorem result_eq_some {p : Program C R α} {a : α} (h : p.result = some a) : p = .done a := by
  cases p with
  | done b =>
    cases h
    rfl
  | call c next => cases h

theorem runs_of_replay {step : (c : C) → S → R c → S → Prop} {exec : (c : C) → S → Option (R c × S)}
    (hexec : ∀ c s r s', exec c s = some (r,s') → step c s r s') {n : ℕ} {p : Program C R α} {s s' : S} {a : α}
    (h : p.replay exec n s = some (.done a,s')) : ∃ events, p.Runs step s events a s' := by
  induction n generalizing p s with
  | zero =>
    cases h
    exact ⟨_,.done a _⟩
  | succ n ih =>
    cases p with
    | done b =>
      cases h
      exact ⟨_,.done a _⟩
    | call c next =>
      rw [replay] at h
      cases hc : exec c s with
      | none => simp [hc] at h
      | some answer =>
        obtain ⟨r,s₁⟩ := answer
        rw [hc] at h
        obtain ⟨events,hr⟩ := ih h
        exact ⟨_,.call (hexec c s r s₁ hc) hr⟩

theorem replay_of_replays {exec : (c : C) → S → Option (R c × S)} {n : ℕ} {p : Program C R α} {s : S}
    {check : α → S → Bool} (h : p.replays exec n s check = true) :
    ∃ a s', p.replay exec n s = some (.done a,s') ∧ check a s' = true := by
  obtain ⟨⟨q,s'⟩,hq,h⟩ := (Option.any_eq_true _ _).mp h
  obtain ⟨a,ha,hcheck⟩ := (Option.any_eq_true _ _).mp h
  obtain rfl := result_eq_some ha
  exact ⟨a,s',hq,hcheck⟩

theorem runs_of_replays {step : (c : C) → S → R c → S → Prop} {exec : (c : C) → S → Option (R c × S)}
    (hexec : ∀ c s r s', exec c s = some (r,s') → step c s r s') {n : ℕ} {p : Program C R α} {s : S}
    {check : α → S → Bool} (h : p.replays exec n s check = true) :
    ∃ events a s', p.Runs step s events a s' ∧ check a s' = true := by
  obtain ⟨a,s',hreplay,hcheck⟩ := replay_of_replays h
  obtain ⟨events,hr⟩ := runs_of_replay hexec hreplay
  exact ⟨events,a,s',hr,hcheck⟩

end Program

namespace System
variable {T C : Type} {R : C → Type} {S X α : Type} [DecidableEq T]

/-- What one thread replays on a view of the state is what it can do in the system. -/
theorem reaches_of_replay {sys : System T C R S α} {exec : (c : C) → X → Option (R c × X)} {t : T} (view : X → S)
    (hexec : ∀ c x r x', exec c x = some (r,x') → sys.step t c (view x) r (view x')) {n : ℕ}
    {p q : Program C R α} {thread : T → Status C R S α} {s₀ : S} {x x' : X} (ht : thread t = .running s₀ p)
    (h : p.replay exec n x = some (q,x')) :
    sys.Reaches ⟨thread,view x⟩ ⟨Function.update thread t (.running s₀ q),view x'⟩ := by
  induction n generalizing thread p x with
  | zero =>
    cases h
    rw [← ht,Function.update_eq_self]
  | succ n ih =>
    cases p with
    | done a =>
      cases h
      rw [← ht,Function.update_eq_self]
    | call c next =>
      rw [Program.replay] at h
      cases hc : exec c x with
      | none => simp [hc] at h
      | some answer =>
        obtain ⟨r,x₁⟩ := answer
        rw [hc] at h
        refine .head (.call ht (hexec c x r x₁ hc)) ?_
        have := ih (Function.update_self t (Status.running s₀ _) thread) h
        rwa [Function.update_idem] at this

/-- A program that is replayed to its end, with its thread finished. -/
theorem finishes_of_replay {sys : System T C R S α} {exec : (c : C) → X → Option (R c × X)} {t : T} (view : X → S)
    (hexec : ∀ c x r x', exec c x = some (r,x') → sys.step t c (view x) r (view x')) {n : ℕ}
    {p : Program C R α} {a : α} {thread : T → Status C R S α} {s₀ : S} {x x' : X} (ht : thread t = .running s₀ p)
    (h : p.replay exec n x = some (.done a,x')) :
    sys.Reaches ⟨thread,view x⟩ ⟨Function.update thread t (.finished s₀ a),view x'⟩ := by
  have hdone := reaches_of_replay view hexec ht h
  have hlast : sys.Next ⟨Function.update thread t (.running s₀ (.done a)),view x'⟩ _ :=
    .finish (Function.update_self t (Status.running s₀ (.done a)) thread)
  have := hdone.tail hlast
  rwa [Function.update_idem] at this

end System
end Interleaving
