import Mathlib.Data.List.AList
import Mathlib.Algebra.BigOperators.Group.List.Basic
import Mathlib.Algebra.Order.BigOperators.Group.List
import Mathlib.Algebra.Order.Ring.Nat
import Mathlib.Algebra.Ring.Nat

/-! The total weight of an association list, and how insertion and removal change it. -/
namespace AList
universe u v
variable {α : Type u} {β : α → Type v}

/-- The sum of the weights of the entries. -/
def weight (f : Sigma β → ℕ) (s : AList β) : ℕ := (s.entries.map f).sum

theorem weight_one (s : AList β) : s.weight (fun _ => 1) = s.entries.length := by
  unfold weight
  induction s.entries with
  | nil => rfl
  | cons e l ih => rw [List.map_cons,List.sum_cons,ih,List.length_cons,Nat.add_comm]

section
variable [DecidableEq α] {f : Sigma β → ℕ} {s : AList β} {a : α} {b : β a}

theorem weight_kerase (f : Sigma β → ℕ) (a : α) (l : List (Sigma β)) :
    ((l.kerase a).map f).sum+(l.dlookup a).elim 0 (fun b => f ⟨a,b⟩) = (l.map f).sum := by
  induction l with
  | nil => rfl
  | cons e l ih =>
    obtain ⟨a',b⟩ := e
    by_cases ha : a = a'
    · subst ha
      rw [List.kerase_cons_eq (s := ⟨a,b⟩) rfl,List.dlookup_cons_eq]
      simp only [Option.elim,List.map_cons,List.sum_cons]
      omega
    · rw [List.kerase_cons_ne ha,List.dlookup_cons_ne l ⟨a',b⟩ ha]
      simp only [List.map_cons,List.sum_cons]
      omega

theorem weight_erase (h : s.lookup a = some b) : (s.erase a).weight f+f ⟨a,b⟩ = s.weight f := by
  have := weight_kerase f a s.entries
  rw [show s.entries.dlookup a = some b from h] at this
  exact this

theorem weight_erase_le (f : Sigma β → ℕ) (s : AList β) (a : α) : (s.erase a).weight f ≤ s.weight f := by
  have := weight_kerase f a s.entries
  exact Nat.le.intro this

theorem weight_insert (f : Sigma β → ℕ) (s : AList β) (a : α) (b : β a) :
    (s.insert a b).weight f = f ⟨a,b⟩+(s.erase a).weight f := by
  rw [weight,entries_insert]
  exact List.sum_cons

theorem weight_insert_le (f : Sigma β → ℕ) (s : AList β) (a : α) (b : β a) :
    (s.insert a b).weight f ≤ s.weight f+f ⟨a,b⟩ := by
  have := weight_erase_le f s a
  rw [weight_insert]
  omega

/-- Replacing an entry trades its weight for the new one. -/
theorem weight_replace (b' : β a) (h : s.lookup a = some b) :
    (s.insert a b').weight f+f ⟨a,b⟩ = s.weight f+f ⟨a,b'⟩ := by
  have := weight_erase (f := f) h
  rw [weight_insert]
  omega

/-- Weights that differ in one key only, where the second is zero. -/
theorem weight_without {g : Sigma β → ℕ} (h : ∀ e : Sigma β, e.1 ≠ a → g e = f e) (hz : ∀ b, g ⟨a,b⟩ = 0) :
    s.weight g+(s.lookup a).elim 0 (fun b => f ⟨a,b⟩) = s.weight f := by
  have hf := weight_kerase f a s.entries
  have hg := weight_kerase g a s.entries
  have hzero : (s.entries.dlookup a).elim 0 (fun b => g ⟨a,b⟩) = 0 := by
    cases s.entries.dlookup a with
    | none => rfl
    | some b => exact hz b
  have hrest : (s.entries.kerase a).map g = (s.entries.kerase a).map f := by
    refine List.map_congr_left fun e he => h e fun ha => ?_
    have hmem := List.mem_keys_of_mem he
    rw [ha] at hmem
    exact List.notMem_keys_kerase a s.nodupKeys hmem
  rw [hzero,hrest] at hg
  unfold weight
  rw [← hf,← hg]
  rfl

end

theorem weight_congr {f g : Sigma β → ℕ} {s : AList β} (h : ∀ e ∈ s.entries, f e = g e) :
    s.weight f = s.weight g := by
  rw [weight,weight,List.map_congr_left h]

theorem weight_le {f g : Sigma β → ℕ} {s : AList β} (h : ∀ e, f e ≤ g e) : s.weight f ≤ s.weight g :=
  List.sum_le_sum fun e _ => h e

/-- The weight of those entries of another list whose keys pass. -/
theorem weight_filter [DecidableEq α] {f : Sigma β → ℕ} {s s' : AList β} {p : α → Bool}
    (h : ∀ a, s'.lookup a = if p a then s.lookup a else none) :
    s'.weight f = s.weight fun e => if p e.1 then f e else 0 := by
  have hperm : s'.entries.Perm (s.entries.filter fun e => p e.1) := by
    refine (List.perm_ext_iff_of_nodup s'.nodupKeys.nodup (s.nodupKeys.nodup.filter _)).mpr ?_
    rintro ⟨a,b⟩
    rw [List.mem_filter,← mem_lookup_iff,← mem_lookup_iff,h]
    cases p a <;> simp
  have hsum : ∀ l : List (Sigma β), ((l.filter fun e => p e.1).map f).sum =
      (l.map fun e => if p e.1 then f e else 0).sum := by
    intro l
    induction l with
    | nil => rfl
    | cons e l ih => cases hp : p e.1 <;> simp [hp,ih]
  rw [weight,(hperm.map f).sum_eq,hsum]
  rfl

theorem weight_sublist {f : Sigma β → ℕ} {s s' : AList β} (h : s.entries.Sublist s'.entries) :
    s.weight f ≤ s'.weight f := by
  unfold weight
  generalize s.entries = l at h ⊢
  generalize s'.entries = l' at h ⊢
  induction h with
  | slnil => rfl
  | cons e _ ih =>
    simp only [List.map_cons,List.sum_cons]
    omega
  | cons_cons e _ ih =>
    simp only [List.map_cons,List.sum_cons]
    omega

end AList
