import Mathlib.Data.Set.Insert
import Mathlib.Logic.Function.Basic

/-! Directory entries under power loss. A change of an entry may survive or be lost, each
on its own, until the directory that the entry lies in is synced. -/
namespace PowerLoss
variable {K V : Type}

/-- What each entry is now, and what a loss of power may leave of it. -/
structure Entries (K V : Type) where
  now : K → V
  after : K → Set V
  current : ∀ k, now k ∈ after k

namespace Entries
variable {E : Entries K V} {k : K} {v v' : V} {p : K → Bool} {found : K → V}

/-- Entries that are certain to survive as they are. -/
def durable (now : K → V) : Entries K V := ⟨now,fun k => {now k},fun k => Set.mem_singleton (now k)⟩

/-- The entries that satisfy `p` become `v`. -/
def change (E : Entries K V) (p : K → Bool) (v : V) : Entries K V where
  now k := if p k then v else E.now k
  after k := if p k then insert v (E.after k) else E.after k
  current k := by
    by_cases hk : p k
    · simp [hk]
    · simp [hk,E.current k]

/-- The directories that hold the entries with `p` are synced. -/
def sync (E : Entries K V) (p : K → Bool) : Entries K V where
  now := E.now
  after k := if p k then {E.now k} else E.after k
  current k := by
    by_cases hk : p k
    · simp [hk]
    · simp [hk,E.current k]

/-- One outcome of a loss of power: every entry is something that may be left of it. -/
def Leaves (E : Entries K V) (found : K → V) : Prop := ∀ k, found k ∈ E.after k

@[simp] theorem mem_durable {now : K → V} : v ∈ (durable now).after k ↔ v = now k := Set.mem_singleton_iff

theorem mem_change : v' ∈ (E.change p v).after k ↔ v' ∈ E.after k ∨ (p k = true ∧ v' = v) := by
  simp only [change]
  by_cases hk : p k
  · simp only [hk,if_true,Set.mem_insert_iff,true_and]
    exact or_comm
  · simp [hk]

theorem mem_sync : v ∈ (E.sync p).after k ↔ if p k then v = E.now k else v ∈ E.after k := by
  simp only [sync]
  split <;> simp

/-- A change adds to what may be left. -/
theorem mem_change_of_mem (h : v' ∈ E.after k) : v' ∈ (E.change p v).after k := mem_change.mpr (.inl h)

/-- A sync takes away from it. -/
theorem mem_of_mem_sync (h : v ∈ (E.sync p).after k) : v ∈ E.after k := by
  rw [mem_sync] at h
  split at h
  · rw [h]
    exact E.current k
  · exact h

theorem now_change (hk : p k = true) : (E.change p v).now k = v := if_pos hk

theorem now_change_of_not (hk : ¬p k = true) : (E.change p v).now k = E.now k := if_neg hk

theorem leaves_now : E.Leaves E.now := E.current

/-- The entries are left independently of each other. -/
theorem Leaves.update [DecidableEq K] (h : E.Leaves found) (hv : v ∈ E.after k) :
    E.Leaves (Function.update found k v) := by
  intro other
  by_cases ho : other = k
  · subst other
    rwa [Function.update_self]
  · rw [Function.update_of_ne ho]
    exact h other

end Entries
end PowerLoss
