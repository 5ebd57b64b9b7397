import StarfieldDatastore.Layout

/-! What each single step can do, faults included. Everything that is proved about
programs rests on these lemmas and not on the definition of a step. -/
namespace StarfieldDatastore
open Interleaving

/-- Filesystem steps that change nothing the model keeps. -/
def FsCall.readOnly : FsCall → Bool
  | .lock _ | .unlock _ | .createIndexDirs _ | .persistSidecar _ _ | .unlinkSidecar _ => false
  | .persistBlob _ _ | .unlinkBlob _ | .createTmp | .appendTmp _ _ | .dropTmp _ => false
  | _ => true

/-- Steps that only look at index and blobs. -/
def FsCall.looks : FsCall → Bool
  | .readSidecar _ | .listIndex | .isBlob _ | .blobLen _ | .readBlob _ | .listBlobs => true
  | _ => false

/-- Steps that change nothing, the coordinator's memory aside. -/
def Call.readOnly : Call → Bool
  | .fs c => c.readOnly
  | .net _ => true
  | .cache _ => false

namespace Call.Does
variable {t : ThreadId} {w w' : World}

/-- A filesystem step that reports success worked. -/
theorem ok {c : FsCall} {out : c.Out} (h : (Call.fs c).Does t w (.ok out) w') :
    ∃ x, w.runFs t c x = some (.ok out,w') := by
  rcases h with h | h
  · exact h
  · cases h

theorem readOnly {c : Call} {r : c.Ret} (hc : c.readOnly = true) (h : c.Does t w r w') :
    w' = w := by
  cases c with
  | fs c =>
    rcases h with ⟨x,hx⟩ | hf
    · cases c <;> simp only [Call.readOnly,FsCall.readOnly,Bool.false_eq_true] at hc <;>
        simp only [World.exec,World.runFs] at hx <;> repeat' split at hx
      all_goals
        simp only [Option.some.injEq,Prod.mk.injEq] at hx
        exact hx.2.symm
    · cases hf with
      | fs => rfl
      | append e n hl => simp only [Call.readOnly,FsCall.readOnly] at hc; contradiction
  | net c =>
    rcases h with ⟨x,hx⟩ | hf
    · simp only [World.exec,Option.some.injEq,Prod.mk.injEq] at hx
      exact hx.2.symm
    · cases hf
  | cache c => simp only [Call.readOnly] at hc; contradiction

theorem readSidecar {path : String} {out : Option Sidecar}
    (h : (Call.fs (.readSidecar path)).Does t w (.ok out) w') : out = w.index.lookup path := by
  obtain ⟨x,hx⟩ := h.ok
  simp only [World.runFs] at hx
  split at hx
  · rename_i hl
    simp_all
  · rename_i hl
    split at hx
    · cases hx
    · split at hx
      · cases hx
      · simp_all

theorem listIndex {out : List String} (h : (Call.fs .listIndex).Does t w (.ok out) w') :
    out = w.index.keys := by
  obtain ⟨x,hx⟩ := h.ok
  simp only [World.runFs,Option.some.injEq,Prod.mk.injEq,Except.ok.injEq] at hx
  exact hx.1.symm

theorem blobLen {digest : String} {out : ℕ}
    (h : (Call.fs (.blobLen digest)).Does t w (.ok out) w') :
    ∃ body, w.blobs.lookup digest = some body ∧ out = body.length := by
  obtain ⟨x,hx⟩ := h.ok
  simp only [World.runFs] at hx
  split at hx
  · rename_i body hl
    exact ⟨body,hl,by simp_all⟩
  · cases hx

theorem readBlob {digest : String} {out : Bytes}
    (h : (Call.fs (.readBlob digest)).Does t w (.ok out) w') :
    w.blobs.lookup digest = some out := by
  obtain ⟨x,hx⟩ := h.ok
  simp only [World.runFs] at hx
  split at hx
  · rename_i body hl
    simp_all
  · cases hx

theorem listBlobs {out : List (String × ℕ)} (h : (Call.fs .listBlobs).Does t w (.ok out) w') :
    out = w.blobs.entries.map fun e => (e.1,e.2.length) := by
  obtain ⟨x,hx⟩ := h.ok
  simp only [World.runFs,Option.some.injEq,Prod.mk.injEq,Except.ok.injEq] at hx
  exact hx.1.symm

theorem readTmp {tmp : ℕ} {out : Bytes} (h : (Call.fs (.readTmp tmp)).Does t w (.ok out) w') :
    ∃ file, w.tmp.lookup tmp = some file ∧ out = file.content := by
  obtain ⟨x,hx⟩ := h.ok
  simp only [World.runFs] at hx
  split at hx
  · rename_i file hl
    exact ⟨file,hl,by simp_all⟩
  · cases hx

/-- A step that reports an error changed nothing, unless it wrote part of an append. -/
theorem error {c : FsCall} {e : IoError} (hc : ∀ tmp buf, c ≠ .appendTmp tmp buf)
    (h : (Call.fs c).Does t w (.error e) w') : w' = w := by
  rcases h with ⟨x,hx⟩ | hf
  · exact World.runFs_error hx
  · cases hf with
    | fs => rfl
    | append e n hl => exact absurd rfl (hc _ _)

theorem lock {name : String} (h : (Call.fs (.lock name)).Does t w (.ok ()) w') :
    w.locks name = none ∧ w' = w.setLock name (some t) := by
  obtain ⟨x,hx⟩ := h.ok
  simp only [World.runFs] at hx
  split at hx
  · rename_i hl
    exact ⟨hl,by simp_all⟩
  · cases hx

theorem unlock {name : String} {r : Except IoError Unit}
    (h : (Call.fs (.unlock name)).Does t w r w') :
    w' = w ∨ w.locks name = some t ∧ w' = w.setLock name none := by
  cases r with
  | error e => exact .inl (h.error (by simp))
  | ok out =>
    obtain ⟨x,hx⟩ := h.ok
    simp only [World.runFs,Option.some.injEq,Prod.mk.injEq] at hx
    split at hx
    · rename_i hl
      exact .inr ⟨hl,hx.2.symm⟩
    · exact .inl hx.2.symm

theorem createIndexDirs {path : String} {r : Except IoError Unit}
    (h : (Call.fs (.createIndexDirs path)).Does t w r w') : ∃ dirs, w' = { w with dirs := dirs } := by
  cases r with
  | error e => exact ⟨w.dirs,h.error (by simp)⟩
  | ok out =>
    obtain ⟨x,hx⟩ := h.ok
    simp only [World.runFs] at hx
    split at hx
    · cases hx
    · split at hx
      · cases hx
      · simp only [Option.some.injEq,Prod.mk.injEq] at hx
        exact ⟨_,hx.2.symm⟩

theorem persistSidecar {path : String} {entry : IndexEntry} {r : Except IoError Unit}
    (h : (Call.fs (.persistSidecar path entry)).Does t w r w') :
    w' = w ∨ w' = { w with index := w.index.insert path (.parsed entry) } := by
  cases r with
  | error e => exact .inl (h.error (by simp))
  | ok out =>
    obtain ⟨x,hx⟩ := h.ok
    simp only [World.runFs] at hx
    split at hx
    · cases hx
    · simp only [Option.some.injEq,Prod.mk.injEq] at hx
      exact .inr hx.2.symm

theorem unlinkSidecar {path : String} {r : Except IoError Bool}
    (h : (Call.fs (.unlinkSidecar path)).Does t w r w') :
    w' = w ∧ (∀ out, r = .ok out → w.index.lookup path = none) ∨
      w' = { w with index := w.index.erase path } := by
  cases r with
  | error e => exact .inl ⟨h.error (by simp),fun out ho => by cases ho⟩
  | ok out =>
    obtain ⟨x,hx⟩ := h.ok
    simp only [World.runFs] at hx
    split at hx
    · simp only [Option.some.injEq,Prod.mk.injEq] at hx
      exact .inr hx.2.symm
    · rename_i hl
      split at hx
      · cases hx
      · split at hx
        · cases hx
        · simp only [Option.some.injEq,Prod.mk.injEq] at hx
          exact .inl ⟨hx.2.symm,fun _ _ => hl⟩

theorem persistBlob {tmp : ℕ} {digest : String}
    (h : (Call.fs (.persistBlob tmp digest)).Does t w (.ok ()) w') :
    ∃ file, w.tmp.lookup tmp = some file ∧
      w' = { w with blobs := w.blobs.insert digest file.content, tmp := w.tmp.erase tmp } := by
  obtain ⟨x,hx⟩ := h.ok
  simp only [World.runFs] at hx
  split at hx
  · rename_i file hl
    simp only [Option.some.injEq,Prod.mk.injEq] at hx
    exact ⟨file,hl,hx.2.symm⟩
  · cases hx

theorem unlinkBlob {digest : String} {r : Except IoError Unit}
    (h : (Call.fs (.unlinkBlob digest)).Does t w r w') :
    w' = w ∨ w' = { w with blobs := w.blobs.erase digest } := by
  cases r with
  | error e => exact .inl (h.error (by simp))
  | ok out =>
    obtain ⟨x,hx⟩ := h.ok
    simp only [World.runFs,Option.some.injEq,Prod.mk.injEq] at hx
    exact .inr hx.2.symm

theorem createTmp {tmp : ℕ} (h : (Call.fs .createTmp).Does t w (.ok tmp) w') :
    w.tmp.lookup tmp = none ∧ w' = { w with tmp := w.tmp.insert tmp ⟨t,[]⟩ } := by
  obtain ⟨x,hx⟩ := h.ok
  simp only [World.runFs] at hx
  split at hx
  · rename_i hl
    simp only [Option.some.injEq,Prod.mk.injEq,Except.ok.injEq] at hx
    obtain ⟨rfl,rfl⟩ := hx
    exact ⟨hl,rfl⟩
  · cases hx

theorem appendTmp {tmp : ℕ} {buf : Bytes}
    (h : (Call.fs (.appendTmp tmp buf)).Does t w (.ok ()) w') :
    ∃ file, w.tmp.lookup tmp = some file ∧ w' = w.append t tmp file buf := by
  obtain ⟨x,hx⟩ := h.ok
  simp only [World.runFs] at hx
  split at hx
  · rename_i file hl
    simp only [Option.some.injEq,Prod.mk.injEq] at hx
    exact ⟨file,hl,hx.2.symm⟩
  · cases hx

theorem appendTmp_error {tmp : ℕ} {buf : Bytes} {e : IoError}
    (h : (Call.fs (.appendTmp tmp buf)).Does t w (.error e) w') :
    w' = w ∨ ∃ file n, w.tmp.lookup tmp = some file ∧ w' = w.append t tmp file (buf.take n) := by
  rcases h with ⟨x,hx⟩ | hf
  · exact .inl (World.runFs_error (c := .appendTmp tmp buf) (x := x) hx)
  · cases hf with
    | fs => exact .inl rfl
    | append e n hl => exact .inr ⟨_,n,hl,rfl⟩

theorem dropTmp {tmp : ℕ} {r : Except IoError Unit}
    (h : (Call.fs (.dropTmp tmp)).Does t w r w') :
    w' = { w with tmp := w.tmp.erase tmp } ∨ w' = w ∧ ∃ e, r = .error e := by
  cases r with
  | error e => exact .inr ⟨h.error (by simp),e,rfl⟩
  | ok out =>
    obtain ⟨x,hx⟩ := h.ok
    simp only [World.runFs,Option.some.injEq,Prod.mk.injEq] at hx
    exact .inl hx.2.symm

/-- The coordinator's memory is not on disk. -/
theorem cache_written {c : CacheCall} {r : c.Ret} (h : (Call.cache c).Does t w r w') :
    w'.written = w.written := by
  rcases h with ⟨x,hx⟩ | hf
  · cases c <;> simp only [World.exec,World.runCache] at hx
    case writeState state reason =>
      cases hx
      cases reason <;> rfl
    all_goals
      repeat' split at hx
      all_goals cases hx <;> rfl
  · cases hf

/-- Steps on disk and on the network do not touch the coordinator's memory. -/
theorem memory {c : Call} {r : c.Ret} (hc : ∀ c', c ≠ .cache c') (h : c.Does t w r w') :
    w'.cache = w.cache ∧ w'.mutex = w.mutex ∧ w'.guards = w.guards ∧ w'.admitted = w.admitted := by
  cases c with
  | cache c => exact absurd rfl (hc c)
  | net c => rw [h.readOnly rfl]; exact ⟨rfl,rfl,rfl,rfl⟩
  | fs c =>
    rcases h with ⟨x,hx⟩ | hf
    · cases c <;> simp only [World.exec,World.runFs] at hx <;> repeat' split at hx
      all_goals cases hx <;> exact ⟨rfl,rfl,rfl,rfl⟩
    · cases hf <;> exact ⟨rfl,rfl,rfl,rfl⟩

theorem tryLockState {r : Bool} (h : (Call.cache .tryLockState).Does t w r w') :
    r = true ∧ w.mutex = none ∧ w' = { w with mutex := some t } ∨
      r = false ∧ w.mutex ≠ none ∧ w' = w := by
  rcases h with ⟨x,hx⟩ | hf
  · simp only [World.exec,World.runCache] at hx
    split at hx
    · rename_i hm
      cases hx
      exact .inl ⟨rfl,hm,rfl⟩
    · rename_i hm
      cases hx
      exact .inr ⟨rfl,hm,rfl⟩
  · cases hf

theorem lockState {r : Unit} (h : (Call.cache .lockState).Does t w r w') :
    w.mutex = none ∧ w' = { w with mutex := some t } := by
  rcases h with ⟨x,hx⟩ | hf
  · simp only [World.exec,World.runCache] at hx
    split at hx
    · rename_i hm
      cases hx
      exact ⟨hm,rfl⟩
    · cases hx
  · cases hf

theorem unlockState {r : Unit} (h : (Call.cache .unlockState).Does t w r w')
    (hm : w.mutex = some t) : w' = { w with mutex := none } := by
  rcases h with ⟨x,hx⟩ | hf
  · simp only [World.exec,World.runCache,hm,if_true] at hx
    cases hx
    rfl
  · cases hf

theorem readState {r : CacheState} (h : (Call.cache .readState).Does t w r w') :
    r = w.cache ∧ w' = w := by
  rcases h with ⟨x,hx⟩ | hf
  · cases hx
    exact ⟨rfl,rfl⟩
  · cases hf

theorem writeState {state : CacheState} {note : CacheNote} {r : Unit}
    (h : (Call.cache (.writeState state note)).Does t w r w') :
    w' = { w.note t note with cache := state } := by
  rcases h with ⟨x,hx⟩ | hf
  · cases hx
    rfl
  · cases hf

theorem panics {r : Bool} (h : (Call.cache .panics).Does t w r w') : w' = w := by
  rcases h with ⟨x,hx⟩ | hf
  · cases hx
    rfl
  · cases hf

theorem unwind {r : Unit} (h : (Call.cache .unwind).Does t w r w') :
    w' = (w.dropOwned t).release t := by
  rcases h with ⟨x,hx⟩ | hf
  · cases hx
    rfl
  · cases hf

end Call.Does

/-- What a step can do to the files below `blobs/` and `tmp/`. -/
inductive World.Files (t : ThreadId) (w w' : World) : Prop
  | same (hb : w'.blobs = w.blobs) (ht : w'.tmp = w.tmp) (hw : w'.written = w.written)
  | created (id) (hfree : w.tmp.lookup id = none) (h : w' = { w with tmp := w.tmp.insert id ⟨t,[]⟩ })
  | appended (id file buf) (hl : w.tmp.lookup id = some file) (h : w' = w.append t id file buf)
  | dropped (id) (h : w' = { w with tmp := w.tmp.erase id })
  | moved (id digest file) (hl : w.tmp.lookup id = some file)
      (h : w' = { w with blobs := w.blobs.insert digest file.content, tmp := w.tmp.erase id })
  | unlinked (digest) (h : w' = { w with blobs := w.blobs.erase digest })
  | unwound (h : w' = (w.dropOwned t).release t)

theorem Call.Does.files {t : ThreadId} {w w' : World} {c : Call} {r : c.Ret} (h : c.Does t w r w') :
    World.Files t w w' := by
  by_cases hread : c.readOnly = true
  · rw [h.readOnly hread]
    exact .same rfl rfl rfl
  cases c with
  | net c => exact absurd rfl hread
  | cache c =>
    cases c with
    | tryLockState => rcases h.tryLockState with ⟨-,-,rfl⟩ | ⟨-,-,rfl⟩ <;> exact .same rfl rfl rfl
    | lockState => obtain ⟨-,rfl⟩ := h.lockState; exact .same rfl rfl rfl
    | unlockState =>
      rcases h with ⟨x,hx⟩ | hf
      · cases hx
        split <;> exact .same rfl rfl rfl
      · cases hf
    | readState => obtain ⟨-,rfl⟩ := h.readState; exact .same rfl rfl rfl
    | writeState state note =>
      obtain rfl := h.writeState
      cases note <;> exact .same rfl rfl rfl
    | panics => obtain rfl := h.panics; exact .same rfl rfl rfl
    | unwind => exact .unwound h.unwind
  | fs c =>
    cases c with
    | appendTmp tmp buf =>
      cases r with
      | ok out =>
        obtain ⟨file,hl,rfl⟩ := h.appendTmp
        exact .appended tmp file buf hl rfl
      | error e =>
        rcases h.appendTmp_error with rfl | ⟨file,n,hl,rfl⟩
        · exact .same rfl rfl rfl
        · exact .appended tmp file (buf.take n) hl rfl
    | lock name =>
      cases r with
      | error e => rw [h.error (by simp)]; exact .same rfl rfl rfl
      | ok out => obtain ⟨-,rfl⟩ := h.lock; exact .same rfl rfl rfl
    | unlock name => rcases h.unlock with rfl | ⟨-,rfl⟩ <;> exact .same rfl rfl rfl
    | createIndexDirs path => obtain ⟨dirs,rfl⟩ := h.createIndexDirs; exact .same rfl rfl rfl
    | persistSidecar path entry => rcases h.persistSidecar with rfl | rfl <;> exact .same rfl rfl rfl
    | unlinkSidecar path => rcases h.unlinkSidecar with ⟨rfl,-⟩ | rfl <;> exact .same rfl rfl rfl
    | persistBlob tmp digest =>
      cases r with
      | error e => rw [h.error (by simp)]; exact .same rfl rfl rfl
      | ok out =>
        obtain ⟨file,hl,rfl⟩ := h.persistBlob
        exact .moved tmp digest file hl rfl
    | unlinkBlob digest =>
      rcases h.unlinkBlob with rfl | rfl
      · exact .same rfl rfl rfl
      · exact .unlinked digest rfl
    | createTmp =>
      cases r with
      | error e => rw [h.error (by simp)]; exact .same rfl rfl rfl
      | ok out =>
        obtain ⟨hfree,rfl⟩ := h.createTmp
        exact .created out hfree rfl
    | dropTmp tmp =>
      rcases h.dropTmp with rfl | ⟨rfl,-⟩
      · exact .dropped tmp rfl
      · exact .same rfl rfl rfl
    | _ => exact absurd rfl hread

end StarfieldDatastore
