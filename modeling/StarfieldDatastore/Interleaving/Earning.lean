import StarfieldDatastore.Interleaving.Converse
import StarfieldDatastore.Interleaving.Embedding

/-! Results that a program reaches only after certain events. What such an event brings about
and nothing takes away again holds when the program ends. -/
namespace Interleaving
namespace Program
variable {C C' : Type} {R : C → Type} {R' : C' → Type} {S α β ε : Type}

/-- Whatever it is answered, the program ends with a result in `Q` only after an event in `P`. -/
def Earns (P : (c : C) → R c → Prop) (Q : α → Prop) : Program C R α → Prop
  | .done a => ¬ Q a
  | .call c next => ∀ r, P c r ∨ (next r).Earns P Q

namespace Earns
variable {P : (c : C) → R c → Prop} {Q : α → Prop} {p : Program C R α}

theorem of_returns (h : p.Returns fun a => ¬ Q a) : p.Earns P Q := by
  induction p with
  | done a => exact h
  | call c next ih => exact fun r => .inr (ih r (h r))

/-- What the first part has not earned the rest has to. -/
theorem bind {f : α → Program C R β} {Q' : β → Prop} (h : p.Earns P Q)
    (hf : ∀ a, ¬ Q a → (f a).Earns P Q') : (p >>= f).Earns P Q' := by
  induction p with
  | done a => exact hf a h
  | call c next ih => exact fun r => (h r).imp id (ih r)

/-- Composition of operations that can fail, where no failure is to be earned. -/
theorem bind_run {x : ExceptT ε (Program C R) α} {f : α → ExceptT ε (Program C R) β} {Q : α → Prop}
    {Q' : Except ε β → Prop} (h : x.run.Earns P fun out => ∃ a, out = .ok a ∧ Q a)
    (herror : ∀ e, ¬ Q' (.error e)) (hf : ∀ a, ¬ Q a → (f a).run.Earns P Q') : (x >>= f).run.Earns P Q' := by
  refine bind (p := x.run) (f := ExceptT.bindCont f) h fun out hout => ?_
  cases out with
  | ok a => exact hf a fun ha => hout ⟨a,rfl,ha⟩
  | error e => exact herror e

/-- Only what comes later earns anything. -/
theorem bind_later {x : ExceptT ε (Program C R) α} {f : α → ExceptT ε (Program C R) β}
    {Q' : Except ε β → Prop} (herror : ∀ e, ¬ Q' (.error e)) (hf : ∀ a, (f a).run.Earns P Q') :
    (x >>= f).run.Earns P Q' := by
  refine bind_run (Q := fun _ => False) (of_returns (.of_all fun out => ?_)) herror fun a _ => hf a
  rintro ⟨a,-,h⟩
  exact h

theorem embed {e : Embedding C R C' R'} (h : p.Earns P Q) :
    (p.embed e).Earns (fun c' r => ∃ c, ∃ h : c' = e.call c, P c (e.reply c (h ▸ r))) Q := by
  induction p with
  | done a => exact h
  | call c next ih => exact fun r => (h _).imp (fun hr => ⟨c,rfl,hr⟩) (ih _)

/-- An event in `P` brings about `A`, which the program keeps as well as the others. -/
theorem holds {E : Setting C R S} {A : S → Prop} {P₀ : C → Prop} {post : α → S → Prop} {s : S}
    (h : p.Earns P Q) (hp : p.Only P₀) (hholds : p.Holds E post s) (hrely : ∀ s t, E.rely s t → A s → A t)
    (hguar : ∀ s t, E.guar s t → A s → A t)
    (hstep : ∀ c s r t, P₀ c → P c r → E.step c s r t → E.guar s t → A t) :
    p.Holds E (fun a t => post a t ∧ (Q a → A t)) s := by
  induction p generalizing s with
  | done a => exact fun t ht => ⟨hholds t ht,fun ha => absurd ha h⟩
  | call c next ih =>
    intro t ht r u hu
    obtain ⟨hg,hn⟩ := hholds t ht r u hu
    refine ⟨hg,?_⟩
    rcases h r with hearned | hlater
    · have hA := hstep c t r u hp.1 hearned hu hg
      exact (hn.keep hrely hguar hA).mono fun a v hv => ⟨hv.1,fun _ => hv.2⟩
    · exact ih r hlater (hp.2 r) hn

end Earns

/-- What holds of every execution is also what every result satisfies. -/
theorem Holds.returns {E : Setting C R S} {p : Program C R α} {Q : α → S → Prop} {Q' : α → Prop} {s : S}
    (h : p.Holds E Q s) (hr : p.Returns Q') : p.Holds E (fun a t => Q a t ∧ Q' a) s := by
  induction p generalizing s with
  | done a => exact fun t ht => ⟨h t ht,hr⟩
  | call c next ih => exact fun t ht r u hu => ⟨(h t ht r u hu).1,ih r (h t ht r u hu).2 (hr r)⟩

end Program
end Interleaving
