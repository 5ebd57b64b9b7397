import StarfieldDatastore.Interleaving.Program

/-! Two-state reasoning about one program among others. Between two of its calls the
rest of the system may move the shared state by `rely`; each of its own calls must
stay within `guar`. -/
namespace Interleaving

/-- What the calls of one program do, what the others may do meanwhile, and what the
program promises to the others. -/
structure Setting (C : Type) (R : C → Type) (S : Type) where
  step : (c : C) → S → R c → S → Prop
  rely : S → S → Prop
  guar : S → S → Prop
  rely_refl : ∀ s, rely s s
  rely_trans : ∀ {s t u}, rely s t → rely t u → rely s u

/-- A program running alone: nothing moves the state between its calls. -/
def Setting.alone {C : Type} {R : C → Type} {S : Type}
    (step : (c : C) → S → R c → S → Prop) : Setting C R S where
  step := step
  rely := Eq
  guar _ _ := True
  rely_refl _ := rfl
  rely_trans := Eq.trans

/-- A program with any replies at all, observed through the events so far, of which
`G` is promised at every moment. -/
def Setting.logged {C : Type} {R : C → Type} (G : List (Program.Event C R) → Prop) :
    Setting C R (List (Program.Event C R)) where
  step c s r s' := s' = s++[⟨c,r⟩]
  rely := Eq
  guar _ s' := G s'
  rely_refl _ := rfl
  rely_trans := Eq.trans

namespace Program
variable {C : Type} {R : C → Type} {S α β ε : Type}

/-- From `s`, every execution keeps the guarantee at each of its calls and ends with a
result and a state in `Q`, however the others interleave. -/
def Holds (E : Setting C R S) : Program C R α → (α → S → Prop) → S → Prop
  | .done a, Q, s => ∀ t, E.rely s t → Q a t
  | .call c next, Q, s => ∀ t, E.rely s t → ∀ r u, E.step c t r u →
      E.guar t u ∧ (next r).Holds E Q u

namespace Holds
variable {E : Setting C R S} {p : Program C R α} {Q Q' : α → S → Prop} {s t : S}

/-- Steps of the others do not invalidate what holds of the rest of a program. -/
theorem stable (h : p.Holds E Q s) (hst : E.rely s t) : p.Holds E Q t := by
  cases p with
  | done a => exact fun u hu => h u (E.rely_trans hst hu)
  | call c next => exact fun u hu => h u (E.rely_trans hst hu)

theorem mono (h : p.Holds E Q s) (hQ : ∀ a t, Q a t → Q' a t) : p.Holds E Q' s := by
  induction p generalizing s with
  | done a => exact fun t ht => hQ a t (h t ht)
  | call c next ih => exact fun t ht r u hu => ⟨(h t ht r u hu).1,ih r (h t ht r u hu).2⟩

theorem of_done {a : α} (h : (Program.done a).Holds E Q s) : Q a s := h s (E.rely_refl s)

/-- Sequential composition: the rest has to hold from wherever the first part ends. -/
theorem bind {f : α → Program C R β} {P : β → S → Prop}
    (h : p.Holds E (fun a t => (f a).Holds E P t) s) : (p >>= f).Holds E P s := by
  induction p generalizing s with
  | done a => exact h.of_done
  | call c next ih => exact fun t ht r u hu => ⟨(h t ht r u hu).1,ih r (h t ht r u hu).2⟩

/-- A single call and what follows each of its replies. -/
theorem perform_bind {c : C} {f : R c → Program C R β} {P : β → S → Prop}
    (h : ∀ t, E.rely s t → ∀ r u, E.step c t r u → E.guar t u ∧ (f r).Holds E P u) :
    (perform c >>= f).Holds E P s := h

/-- Sequential composition of operations that can fail: an error skips the rest. -/
theorem bind_run {x : ExceptT ε (Program C R) α} {f : α → ExceptT ε (Program C R) β}
    {P : Except ε β → S → Prop}
    (h : x.run.Holds E (fun r t => match r with
      | .ok a => (f a).run.Holds E P t
      | .error e => P (.error e) t) s) : (x >>= f).run.Holds E P s := by
  refine Holds.bind (p := x.run) (f := ExceptT.bindCont f) ?_
  generalize x.run = p at h
  induction p generalizing s with
  | done r =>
    cases r with
    | ok a => exact fun t ht => h t ht
    | error e => exact fun t ht u hu => h u (E.rely_trans ht hu)
  | call c next ih => exact fun t ht r u hu => ⟨(h t ht r u hu).1,ih r (h t ht r u hu).2⟩

/-- A pure result followed by the rest of an operation. -/
theorem except_bind {x : Except ε α} {f : α → ExceptT ε (Program C R) β}
    {P : Except ε β → S → Prop} (hok : ∀ a, x = .ok a → (f a).run.Holds E P s)
    (herror : ∀ e, x = .error e → ∀ t, E.rely s t → P (.error e) t) :
    (liftM x >>= f : ExceptT ε (Program C R) β).run.Holds E P s := by
  refine bind_run fun t ht => ?_
  cases x with
  | ok a => exact (hok a rfl).stable ht
  | error e => exact herror e rfl t ht

/-- Fewer disturbances, fewer outcomes of a call and a weaker promise. -/
theorem weaken {E' : Setting C R S} (h : p.Holds E Q s)
    (hrely : ∀ s t, E'.rely s t → E.rely s t)
    (hstep : ∀ c s r t, E'.step c s r t → E.step c s r t)
    (hguar : ∀ s t, E.guar s t → E'.guar s t) : p.Holds E' Q s := by
  induction p generalizing s with
  | done a => exact fun t ht => h t (hrely s t ht)
  | call c next ih =>
    intro t ht r u hu
    obtain ⟨hg,hn⟩ := h t (hrely s t ht) r u (hstep c t r u hu)
    exact ⟨hguar t u hg,ih r hn⟩

/-- A program all of whose calls keep an assertion that the others keep as well. -/
theorem of_only {P : C → Prop} {A : S → Prop} (hp : p.Only P)
    (hrely : ∀ s t, E.rely s t → A s → A t)
    (hstep : ∀ c s r t, P c → A s → E.step c s r t → E.guar s t ∧ A t)
    (hs : A s) : p.Holds E (fun _ t => A t) s := by
  induction p generalizing s with
  | done a => exact fun t ht => hrely s t ht hs
  | call c next ih =>
    intro t ht r u hu
    obtain ⟨hg,hA⟩ := hstep c t r u hp.1 (hrely s t ht hs) hu
    exact ⟨hg,ih r (hp.2 r) hA⟩

/-- Every step of a program is one of the calls that it can make. -/
theorem caused {P : C → Prop} (h : p.Holds E Q s) (hp : p.Only P) :
    p.Holds { E with guar := fun s t => E.guar s t ∧ ∃ c r, P c ∧ E.step c s r t } Q s := by
  induction p generalizing s with
  | done a => exact h
  | call c next ih =>
    intro t ht r u hu
    obtain ⟨hg,hn⟩ := h t ht r u hu
    exact ⟨⟨hg,c,r,hp.1,hu⟩,ih r hn (hp.2 r)⟩

/-- A quantity of the state that only the program's own calls raise, each by at most its
cost, is bounded by what the program spends. -/
theorem spending {size : S → ℕ} {cost : Event C R → ℕ} {n bound : ℕ} (h : p.Holds E Q s)
    (hp : p.Spends cost n) (hstep : ∀ c s r t, E.step c s r t → size t ≤ size s+cost ⟨c,r⟩)
    (hrely : ∀ s t, E.rely s t → size t = size s) (hs : size s+n ≤ bound) :
    p.Holds { E with guar := fun s t => E.guar s t ∧ size t ≤ bound } Q s := by
  induction p generalizing s n with
  | done a => exact h
  | call c next ih =>
    intro t ht r u hu
    obtain ⟨hg,hn⟩ := h t ht r u hu
    obtain ⟨hle,hnext⟩ := hp.call r
    have hsize := hstep c t r u hu
    have ht := hrely s t ht
    exact ⟨⟨hg,by omega⟩,ih r hn hnext (by omega)⟩

/-- An assertion that the program keeps as well as the others holds at each of its calls. -/
theorem keeping {A : S → Prop} (h : p.Holds E Q s) (hrely : ∀ s t, E.rely s t → A s → A t)
    (hguar : ∀ s t, E.guar s t → A s → A t) (hs : A s) :
    p.Holds { E with guar := fun s t => E.guar s t ∧ A s ∧ A t } (fun a t => Q a t ∧ A t) s := by
  induction p generalizing s with
  | done a => exact fun t ht => ⟨h t ht,hrely s t ht hs⟩
  | call c next ih =>
    intro t ht r u hu
    obtain ⟨hg,hn⟩ := h t ht r u hu
    have hA := hrely s t ht hs
    exact ⟨⟨hg,hA,hguar t u hg hA⟩,ih r hn (hguar t u hg hA)⟩

/-- Such an assertion still holds at the end. -/
theorem keep {A : S → Prop} (h : p.Holds E Q s) (hrely : ∀ s t, E.rely s t → A s → A t)
    (hguar : ∀ s t, E.guar s t → A s → A t) (hs : A s) : p.Holds E (fun a t => Q a t ∧ A t) s :=
  (h.keeping hrely hguar hs).weaken (fun _ _ h => h) (fun _ _ _ _ h => h) fun _ _ h => h.1

/-- What holds of a program holds at the end of each of its runs among idle others. -/
theorem of_runs {events : List (Event C R)} {a : α} (h : p.Holds E Q s)
    (hr : p.Runs E.step s events a t) : Q a t := by
  induction hr with
  | done a s => exact h.of_done
  | call head _ ih => exact ih (h _ (E.rely_refl _) _ _ head).2

/-- What every guarantee keeps is kept by a complete run among idle others. -/
theorem kept_of_runs {A : S → Prop} {events : List (Event C R)} {a : α} (h : p.Holds E Q s)
    (hguar : ∀ s t, E.guar s t → A s → A t) (hr : p.Runs E.step s events a t) (hs : A s) : A t := by
  induction hr with
  | done a s => exact hs
  | call head _ ih =>
    obtain ⟨hg,hn⟩ := h _ (E.rely_refl _) _ _ head
    exact ih hn (hguar _ _ hg hs)

variable {G : List (Event C R) → Prop} {Q : α → List (Event C R) → Prop}

theorem log_of_trace {before events : List (Event C R)} (h : p.Holds (.logged G) Q before)
    (hG : G before) (ht : p.Trace events) : G (before++events) := by
  induction ht generalizing before with
  | start p => simpa using hG
  | call _ ih =>
    obtain ⟨hg,hn⟩ := h _ rfl _ _ rfl
    simpa using ih hn hg

theorem log_of_finishes {before events : List (Event C R)} {a : α}
    (h : p.Holds (.logged G) Q before) (hf : p.Finishes events a) : Q a (before++events) := by
  induction hf generalizing before with
  | done a => simpa using h.of_done
  | call _ ih => simpa using ih (h _ rfl _ _ rfl).2

end Holds

end Program
end Interleaving
