import StarfieldDatastore.Interleaving.RelyGuarantee
import StarfieldDatastore.Interleaving.Total

/-! A program as part of a larger one, whose state has other parts. -/
namespace Interleaving

/-- The calls of one signature among those of another. -/
structure Embedding (C : Type) (R : C → Type) (C' : Type) (R' : C' → Type) where
  call : C → C'
  reply : (c : C) → R' (call c) → R c

namespace Program
variable {C C' : Type} {R : C → Type} {R' : C' → Type} {S S' α : Type}

/-- The same program with the calls of the larger signature. -/
def embed (e : Embedding C R C' R') : Program C R α → Program C' R' α
  | .done a => .done a
  | .call c next => .call (e.call c) fun r => (next (e.reply c r)).embed e

theorem Only.of_forall {P : C → Prop} (h : ∀ c, P c) : ∀ {p : Program C R α}, p.Only P
  | .done _ => trivial
  | .call c _ => ⟨h c,fun _ => of_forall h⟩

theorem Only.except_bind {ε β : Type} {P : C → Prop} {x : Except ε α} {f : α → ExceptT ε (Program C R) β}
    (h : ∀ a, x = .ok a → (f a).run.Only P) : ((liftM x : ExceptT ε (Program C R) α) >>= f).run.Only P := by
  cases x with
  | error e => trivial
  | ok a => exact h a rfl

theorem Only.embed {e : Embedding C R C' R'} {P : C → Prop} {p : Program C R α} (h : p.Only P) :
    (p.embed e).Only fun c' => ∃ c, c' = e.call c ∧ P c := by
  induction p with
  | done a => trivial
  | call c next ih => exact ⟨⟨c,rfl,h.1⟩,fun r => ih _ (h.2 _)⟩

/-- What holds of a program on its part of the state holds on the whole. `A` says what is known of the
other parts, which its calls keep as well as the others. -/
theorem Holds.embed {e : Embedding C R C' R'} {E : Setting C R S} {E' : Setting C' R' S'} {view : S' → S}
    {P : C → Prop} {A : S' → Prop} {p : Program C R α} {Q : α → S → Prop} {s : S'}
    (h : p.Holds E Q (view s)) (hp : p.Only P)
    (hrely : ∀ s t, E'.rely s t → A s → E.rely (view s) (view t) ∧ A t)
    (hstep : ∀ c s r t, P c → A s → E'.step (e.call c) s r t → E.step c (view s) (e.reply c r) (view t) ∧
      (E.guar (view s) (view t) → E'.guar s t ∧ A t)) (hs : A s) :
    (p.embed e).Holds E' (fun a t => Q a (view t) ∧ A t) s := by
  induction p generalizing s with
  | done a =>
    intro t ht
    obtain ⟨hr,hA⟩ := hrely s t ht hs
    exact ⟨h _ hr,hA⟩
  | call c next ih =>
    intro t ht r u hu
    obtain ⟨hr,hA⟩ := hrely s t ht hs
    obtain ⟨hdoes,hkept⟩ := hstep c t r u hp.1 hA hu
    obtain ⟨hg,hn⟩ := h _ hr _ _ hdoes
    obtain ⟨hg',hA'⟩ := hkept hg
    exact ⟨hg',ih _ hn (hp.2 _) hA'⟩

/-- A program that runs alone on its part of the state ends the same way on the whole, if its calls
keep what `A` says of the other parts. -/
theorem Total.embed {e : Embedding C R C' R'} {step : (c : C) → S → R c → S → Prop}
    {step' : (c : C') → S' → R' c → S' → Prop} {view : S' → S} {A : S' → Prop} {p : Program C R α}
    {Q : α → S → Prop} {s : S'} (h : p.Total step Q (view s))
    (hcan : ∀ c s, A s → (∃ r t, step c (view s) r t) → ∃ r t, step' (e.call c) s r t)
    (hstep : ∀ c s r t, A s → step' (e.call c) s r t → step c (view s) (e.reply c r) (view t) ∧ A t)
    (hs : A s) : (p.embed e).Total step' (fun a t => Q a (view t) ∧ A t) s := by
  induction p generalizing s with
  | done a => exact ⟨h,hs⟩
  | call c next ih =>
    refine ⟨hcan c s hs h.1,fun r t ht => ?_⟩
    obtain ⟨hview,hA⟩ := hstep c s r t hs ht
    exact ih _ (h.2 _ _ hview) hA

end Program
end Interleaving
