import StarfieldDatastore.Steps
import StarfieldDatastore.Weight

/-! The bytes on disk: what a step can do to the sum of blobs and temporary files. -/
namespace StarfieldDatastore
open Interleaving

/-- The bytes in blobs. -/
def World.blobBytes (w : World) : ℕ :=
  w.blobs.weight fun e => if isDigest e.1 then e.2.length else 0

/-- The bytes in files under `tmp/`. -/
def World.tmpBytes (w : World) : ℕ := w.tmp.weight fun e => e.2.content.length

namespace World
variable {t : ThreadId} {w w' : World}

theorem blobBytes_insert_le (w : World) (digest : String) (body : Bytes) :
    (w.blobs.insert digest body).weight (fun e => if isDigest e.1 then e.2.length else 0) ≤
      w.blobBytes+body.length := by
  refine (AList.weight_insert_le _ _ _ _).trans (Nat.add_le_add_left ?_ _)
  simp only
  split <;> omega

theorem lookup_dropOwned (id : ℕ) (file : TmpFile) :
    (w.dropOwned t).tmp.lookup id = some file ↔ w.tmp.lookup id = some file ∧ file.owner ≠ t := by
  rw [← Option.mem_def,← Option.mem_def,AList.mem_lookup_iff,AList.mem_lookup_iff]
  simp [dropOwned]

namespace Files

/-- What a step adds to the disk it has written. -/
theorem bytes_le (h : Files t w w') :
    w'.blobBytes+w'.tmpBytes+w.written t ≤ w.blobBytes+w.tmpBytes+w'.written t := by
  cases h with
  | same hb ht hw => simp only [blobBytes,tmpBytes,hb,ht,hw,Nat.le_refl]
  | created id hfree h =>
    subst h
    have := AList.weight_insert_le (fun e => e.2.content.length) w.tmp id ⟨t,[]⟩
    simp only [blobBytes,tmpBytes,List.length_nil] at this ⊢
    omega
  | appended id file buf hl h =>
    subst h
    have := AList.weight_replace (f := fun e => e.2.content.length)
      { file with content := file.content++buf } hl
    simp only [blobBytes,tmpBytes,append,Function.update_self,List.length_append] at this ⊢
    omega
  | dropped id h =>
    subst h
    have := AList.weight_erase_le (fun e => e.2.content.length) w.tmp id
    simp only [blobBytes,tmpBytes] at this ⊢
    omega
  | moved id digest file hl h =>
    subst h
    have := blobBytes_insert_le w digest file.content
    have := AList.weight_erase (f := fun e => e.2.content.length) hl
    simp only [blobBytes,tmpBytes] at *
    omega
  | unlinked digest h =>
    subst h
    have := AList.weight_erase_le (fun e => if isDigest e.1 then e.2.length else 0) w.blobs digest
    simp only [blobBytes,tmpBytes] at this ⊢
    omega
  | unwound h =>
    subst h
    have : (w.dropOwned t).tmp.weight (fun e => e.2.content.length) ≤ w.tmpBytes :=
      AList.weight_sublist List.filter_sublist
    simp only [blobBytes,tmpBytes] at this ⊢
    exact Nat.add_le_add_right (Nat.add_le_add_left this _) _

/-- Only the thread that steps writes. -/
theorem written (h : Files t w w') {u : ThreadId} (hu : u ≠ t) : w'.written u = w.written u := by
  cases h with
  | same hb ht hw => rw [hw]
  | appended id file buf hl h =>
    rw [h]
    exact Function.update_of_ne hu _ _
  | created id hfree h => rw [h]
  | dropped id h => rw [h]
  | moved id digest file hl h => rw [h]
  | unlinked digest h => rw [h]
  | unwound h => rw [h]; rfl

/-- A temporary file belongs to the thread that steps or was there before. -/
theorem owned (h : Files t w w') {id : ℕ} {file : TmpFile} (hl : w'.tmp.lookup id = some file) :
    file.owner = t ∨ ∃ old, w.tmp.lookup id = some old ∧ old.owner = file.owner := by
  have inserted : ∀ (id' : ℕ) (new : TmpFile),
      (new.owner = t ∨ ∃ old, w.tmp.lookup id' = some old ∧ old.owner = new.owner) →
      (w.tmp.insert id' new).lookup id = some file →
      file.owner = t ∨ ∃ old, w.tmp.lookup id = some old ∧ old.owner = file.owner := by
    intro id' new hold hl
    by_cases hid : id = id'
    · subst hid
      rw [AList.lookup_insert] at hl
      cases hl
      exact hold
    · rw [AList.lookup_insert_ne hid] at hl
      exact .inr ⟨file,hl,rfl⟩
  have erased : ∀ {id' : ℕ}, (w.tmp.erase id').lookup id = some file →
      file.owner = t ∨ ∃ old, w.tmp.lookup id = some old ∧ old.owner = file.owner := by
    intro id' hl
    by_cases hid : id = id'
    · rw [hid,AList.lookup_erase] at hl
      cases hl
    · rw [AList.lookup_erase_ne hid] at hl
      exact .inr ⟨file,hl,rfl⟩
  cases h with
  | same hb ht hw => exact .inr ⟨file,ht ▸ hl,rfl⟩
  | created id' hfree h => subst h; exact inserted id' ⟨t,[]⟩ (.inl rfl) hl
  | appended id' old buf hold h => subst h; exact inserted id' ⟨old.owner,old.content++buf⟩ (.inr ⟨old,hold,rfl⟩) hl
  | dropped id' h => subst h; exact erased hl
  | moved id' digest old hold h => subst h; exact erased hl
  | unlinked digest h => subst h; exact .inr ⟨file,hl,rfl⟩
  | unwound h =>
    subst h
    exact .inr ⟨file,((lookup_dropOwned id file).mp hl).1,rfl⟩

end Files

/-- Unwinding leaves the temporary files of the others alone. -/
theorem lookup_unwound (id : ℕ) (file : TmpFile) :
    ((w.dropOwned t).release t).tmp.lookup id = some file ↔
      w.tmp.lookup id = some file ∧ file.owner ≠ t := lookup_dropOwned id file

end World
end StarfieldDatastore
