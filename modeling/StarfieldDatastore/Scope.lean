import StarfieldDatastore.Fills
import StarfieldDatastore.Get
import StarfieldDatastore.Paths

/-! The operations on one key: what they do under the lock of that key, and that the only
sidecar they touch is its own. -/
namespace StarfieldDatastore
open Interleaving

/-- The calls of an operation on `key` under the lock of that key. -/
def Call.inside (key : ArtifactKey) : Call → Bool
  | .fs (.lock name) | .fs (.unlock name) => name = Layout.storeLockName
  | .fs (.persistSidecar path _) | .fs (.unlinkSidecar path) => path = indexPath key
  | .cache _ => false
  | _ => true

/-- What an event makes of the sidecars. -/
def Event.index : Event → (String → Option Sidecar) → String → Option Sidecar
  | ⟨.fs (.persistSidecar path entry),.ok _⟩, m => Function.update m path (some (.parsed entry))
  | ⟨.fs (.unlinkSidecar path),.ok _⟩, m => Function.update m path none
  | _, m => m

/-- What a sequence of events makes of the sidecars. -/
def replay (events : List Event) (m : String → Option Sidecar) : String → Option Sidecar :=
  events.foldl (fun m e => e.index m) m

@[simp] theorem replay_nil (m : String → Option Sidecar) : replay [] m = m := rfl

@[simp] theorem replay_cons (e : Event) (events : List Event) (m : String → Option Sidecar) :
    replay (e :: events) m = replay events (e.index m) := rfl

theorem replay_append (before after : List Event) (m : String → Option Sidecar) :
    replay (before++after) m = replay after (replay before m) := List.foldl_append

theorem Call.inside_of_resolves {key : ArtifactKey} (c : Call) (h : c.resolves key = true) :
    c.inside key = true := by
  cases c with
  | fs c => cases c <;> first | rfl | exact h | cases h
  | net c => rfl
  | cache c => cases h

namespace Datastore

/-- What `importFile` does under the lock of its key. -/
def importing (H : Sha256) (artifact : Artifact) (path : String) : Op (List String) := do
  let reads ← io (.openImport path)
  let producer : Producer (Option Unit) := fun w => do
    match ← copy H readImport reads w with
    | (.error e,w) => return (.error e,w)
    | (.ok (),w) => return (.ok (some ()),w)
  let (received,_) ← receive H artifact none producer
  match ← received with
  | none => throw (.config "a local file is always served")
  | some received =>
    let entry := IndexEntry.new received.digest received.bytes (← nowUnix) .localDisk
    publish H artifact received.tmp { entry with source := some "local:import" }

/-- What `remove` does under the lock of its key. -/
def removing (ds : Datastore) (key : ArtifactKey) : Op Unit :=
  Layout.storeLock do
    match ← ds.layout.readEntry key with
    | none => return ()
    | some entry =>
      let _ ← Layout.removeEntry key
      if !(← ds.digestReferenced entry.digest) then Layout.removeBlob entry.digest

end Datastore

theorem importFile_eq (H : Sha256) (artifact : Artifact) (path : String) :
    Datastore.importFile H artifact path =
      Layout.lock H artifact.key (Datastore.importing H artifact path) := rfl

section calls
variable {H : Sha256} {U : UrlCrate} {ds : Datastore} {artifact : Artifact} {key : ArtifactKey}

theorem resolution_inside (budget : Option ℕ) :
    (ds.resolution H U artifact budget).run.Only fun c => c.inside artifact.key = true :=
  (resolution_resolves budget).mono Call.inside_of_resolves

/-- The file that is imported is copied without a lock. -/
theorem copyImport_transfers (reads : ℕ) (rcv : Receiver) : (do
      match ← copy H readImport reads rcv with
      | (.error e,rcv) => return (.error e,rcv)
      | (.ok (),rcv) => return (.ok (some ()),rcv) :
      Prog (Except DatastoreError (Option Unit) × Receiver)).Only fun c => c.transfers = true := by
  have hread : readImport.Only fun c => c.transfers = true := ⟨rfl,fun _ => trivial⟩
  refine .bind (copy_only hread (fun _ _ => rfl) _ _) fun out => ?_
  obtain ⟨r,rcv'⟩ := out
  cases r <;> trivial

theorem importing_inside (path : String) :
    (Datastore.importing H artifact path).run.Only fun c => c.inside artifact.key = true := by
  refine .bind_run (io_only rfl) fun reads => .bind_run (.lift ((receive_transfers (copyImport_transfers reads)).mono
    fun c hc => Call.inside_of_resolves c (Call.resolves_of_transfers c hc))) fun received =>
    .bind_run (.lift_except _) fun found => ?_
  cases found with
  | none => trivial
  | some received =>
    exact .bind_run (.lift (nowUnix_only rfl)) fun _ => (publish_publishing _).mono fun c hc =>
      Call.inside_of_resolves c (Call.resolves_of_publishing c hc)

theorem FsCall.inside_of_looks (c : FsCall) (h : c.looks = true) :
    Call.inside key (.fs c) = true := by
  cases c <;> first | rfl | cases h

theorem removing_inside : (ds.removing key).run.Only fun c => c.inside key = true := by
  refine withLock_only rfl rfl (.bind_run (readEntry_only _ _ rfl) fun found => ?_)
  cases found with
  | none => trivial
  | some entry =>
    refine .bind_run (io_only (by simp [Call.inside])) fun _ =>
      .bind_run (.bind_run (entries_only FsCall.inside_of_looks) fun _ => trivial) fun referenced => ?_
    split
    · exact io_only rfl
    · trivial

end calls

section index
variable {t : ThreadId} {w w' : World} {c : Call} {r : c.Ret} {key : ArtifactKey} {path : String}

/-- A step makes of the sidecars on disk what its event says. -/
theorem Call.Does.index (h : c.Does t w r w') :
    (fun path => w'.index.lookup path) = Event.index ⟨c,r⟩ fun path => w.index.lookup path := by
  cases c with
  | net c => rw [h.readOnly rfl]; rfl
  | cache c =>
    rcases h with ⟨x,hx⟩ | hf
    · cases c with
      | writeState state note => cases hx; cases note <;> rfl
      | _ =>
        simp only [World.exec,World.runCache] at hx
        repeat' split at hx
        all_goals cases hx <;> rfl
    · cases hf
  | fs c =>
    cases r with
    | error e =>
      have hsame : w'.index = w.index := by
        rcases h with ⟨x,hx⟩ | hf
        · cases c <;> simp only [World.exec,World.runFs] at hx <;> repeat' split at hx
          all_goals cases hx <;> rfl
        · cases hf <;> rfl
      rw [hsame]
      cases c <;> rfl
    | ok out =>
      obtain ⟨x,hx⟩ := h.ok
      cases c with
      | persistSidecar path entry =>
        simp only [World.runFs] at hx
        split at hx
        · cases hx
        · cases hx
          funext path'
          simp only [Event.index,Function.update_apply]
          by_cases hp : path' = path
          · rw [if_pos hp,hp,AList.lookup_insert]
          · rw [if_neg hp,AList.lookup_insert_ne hp]
      | unlinkSidecar path =>
        simp only [World.runFs] at hx
        funext path'
        simp only [Event.index,Function.update_apply]
        split at hx
        · cases hx
          by_cases hp : path' = path
          · rw [hp,if_pos rfl,AList.lookup_erase]
          · rw [if_neg hp,AList.lookup_erase_ne hp]
        · rename_i hnone
          split at hx
          · cases hx
          · split at hx
            · cases hx
            · cases hx
              by_cases hp : path' = path
              · rw [hp,if_pos rfl,hnone]
              · rw [if_neg hp]
      | _ =>
        simp only [World.runFs] at hx
        repeat' split at hx
        all_goals cases hx <;> rfl

/-- An operation on one key leaves the sidecars of the others alone. -/
theorem Event.index_of_inside (hc : c.inside key = true) (hp : path ≠ indexPath key)
    (m : String → Option Sidecar) : Event.index ⟨c,r⟩ m path = m path := by
  cases c with
  | net c => rfl
  | cache c => rfl
  | fs c =>
    cases c with
    | persistSidecar path' entry =>
      have hpath : path' = indexPath key := of_decide_eq_true hc
      subst hpath
      cases r with
      | error e => rfl
      | ok out => exact Function.update_of_ne hp _ _
    | unlinkSidecar path' =>
      have hpath : path' = indexPath key := of_decide_eq_true hc
      subst hpath
      cases r with
      | error e => rfl
      | ok out => exact Function.update_of_ne hp _ _
    | _ => rfl

/-- A call that leaves the sidecar at a path alone. -/
def Call.spares (path : String) (c : Call) : Prop := ∀ r m, Event.index ⟨c,r⟩ m path = m path

theorem Call.spares_of_inside (hp : path ≠ indexPath key) (c : Call) (hc : c.inside key = true) :
    c.spares path := fun _ m => Event.index_of_inside hc hp m

theorem index_of_runs {α : Type} {p : Prog α} {events : List Event} {a : α}
    (h : p.Runs (Call.Does t) w events a w') :
    (fun path => w'.index.lookup path) = replay events fun path => w.index.lookup path := by
  induction h with
  | done a s => rfl
  | call head _ ih => rw [replay_cons,ih,head.index]

theorem spared_of_runs {α : Type} {p : Prog α} {events : List Event} {a : α}
    (hp : p.Only (Call.spares path)) (h : p.Runs (Call.Does t) w events a w') :
    w'.index.lookup path = w.index.lookup path := by
  induction h with
  | done a s => rfl
  | call head _ ih =>
    rw [ih (hp.2 _)]
    exact (congrFun head.index path).trans (hp.1 _ _)

end index

section spares
variable {H : Sha256} {U : UrlCrate} {ds : Datastore} {artifact : Artifact} {key : ArtifactKey}
  {path : String}

theorem lock_spares {α : Type} {body : Op α} (hp : path ≠ indexPath key)
    (hbody : body.run.Only fun c => c.inside key = true) :
    (Layout.lock H key body).run.Only (Call.spares path) :=
  withLock_only (fun _ _ => rfl) (fun _ _ => rfl) (hbody.mono (Call.spares_of_inside hp))

theorem getWithBudget_spares (budget : Option ℕ) (hp : path ≠ indexPath artifact.key) :
    (ds.getWithBudget H U artifact budget).run.Only (Call.spares path) :=
  lock_spares hp (resolution_inside budget)

theorem importFile_spares (source : String) (hp : path ≠ indexPath artifact.key) :
    (Datastore.importFile H artifact source).run.Only (Call.spares path) :=
  lock_spares hp (importing_inside source)

theorem remove_spares (hp : path ≠ indexPath key) : (ds.remove H key).run.Only (Call.spares path) :=
  lock_spares hp removing_inside

end spares

/-- Calls that change neither blobs nor sidecars. -/
def Call.still : Call → Bool
  | .fs (.lock _) | .fs (.unlock _) => true
  | c => c.readOnly

section still
variable {H : Sha256} {U : UrlCrate} {ds : Datastore} {artifact : Artifact} {t : ThreadId}
  {w w' : World}

theorem FsCall.still_of_looks (c : FsCall) (h : c.looks = true) : Call.still (.fs c) = true := by
  cases c <;> first | exact h | rfl

theorem Call.Does.still {c : Call} {r : c.Ret} (h : c.Does t w r w') (hc : c.still = true) :
    w'.blobs = w.blobs ∧ w'.index = w.index := by
  by_cases hread : c.readOnly = true
  · rw [h.readOnly hread]
    exact ⟨rfl,rfl⟩
  cases c with
  | net c => exact absurd rfl hread
  | cache c => cases hc
  | fs c =>
    cases c with
    | lock name =>
      cases r with
      | error e => rw [h.error (by simp)]; exact ⟨rfl,rfl⟩
      | ok out => obtain ⟨-,rfl⟩ := h.lock; exact ⟨rfl,rfl⟩
    | unlock name => rcases h.unlock with rfl | ⟨-,rfl⟩ <;> exact ⟨rfl,rfl⟩
    | _ => exact absurd hc hread

theorem still_of_runs {α : Type} {p : Prog α} {events : List Event} {a : α}
    (hp : p.Only fun c => c.still = true) (h : p.Runs (Call.Does t) w events a w') :
    w'.blobs = w.blobs ∧ w'.index = w.index := by
  induction h with
  | done a s => exact ⟨rfl,rfl⟩
  | call head _ ih =>
    obtain ⟨hb,hi⟩ := ih (hp.2 _)
    obtain ⟨hb',hi'⟩ := Call.Does.still head hp.1
    exact ⟨hb.trans hb',hi.trans hi'⟩

/-- Offline, a call of `get` only looks. -/
theorem get_still (h : ds.offline = true) :
    (ds.get H U artifact).run.Only fun c => c.still = true := by
  refine .bind_run ?_ fun _ => trivial
  rw [getWithBudget_eq]
  refine withLock_only rfl rfl (.bind_run (lookupLocal_only FsCall.still_of_looks) fun found => ?_)
  cases found with
  | some found => trivial
  | none =>
    simp only [h,if_true]
    trivial

theorem verify_only {P : Call → Prop} (h : ∀ c : FsCall, c.looks = true → P (.fs c)) :
    (ds.verify H).run.Only P := by
  refine .bind_run (entries_only h) fun entries => ?_
  induction entries with
  | nil => trivial
  | cons e rest ih =>
    obtain ⟨key,entry⟩ := e
    refine .bind_run (.bind_run (.lift (isFile_only (h _ rfl))) fun found => ?_) fun failure => ?_
    · split
      · trivial
      · refine .bind_run (io_only (h _ rfl)) fun length =>
          .bind_run (.bind_run (io_only (h _ rfl)) fun _ => trivial) fun actual => ?_
        split
        · trivial
        · split <;> trivial
    · cases failure with
      | none => exact ih
      | some failure => exact .bind_run ih fun _ => trivial

theorem verify_still : (ds.verify H).run.Only fun c => c.still = true := verify_only FsCall.still_of_looks

/-- A thread that does not clean up may have temporary files. -/
theorem empty_false : Empty False t w := fun h => h.elim

end still
end StarfieldDatastore
