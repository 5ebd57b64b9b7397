import StarfieldDatastore.Budget
import StarfieldDatastore.Reclaim
import StarfieldDatastore.Cache

/-! The calls that a fill and a maintenance can make, and what a fill can write. -/
namespace StarfieldDatastore
open Interleaving

/-- The calls of a resolution of `key` under the lock of that key. -/
def Call.resolves (key : ArtifactKey) : Call → Bool
  | .fs (.lock name) | .fs (.unlock name) => name = Layout.storeLockName
  | .fs (.persistSidecar path _) => path = indexPath key
  | .fs (.unlinkBlob _) | .fs (.unlinkSidecar _) => false
  | .cache _ => false
  | _ => true

/-- The calls of a transfer into a temporary file. -/
def Call.transfers : Call → Bool
  | .fs .createTmp | .fs (.appendTmp _ _) | .fs (.dropTmp _) | .fs .readImport => true
  | .net _ => true
  | _ => false

/-- The calls of a fill: it unlinks nothing, and leaves the coordinator alone. -/
def Call.fills : Call → Bool
  | .fs (.unlinkBlob _) | .fs (.unlinkSidecar _) => false
  | .cache _ => false
  | _ => true

/-- The calls of a maintenance: it creates nothing, and leaves the coordinator alone. -/
def Call.reclaims : Call → Bool
  | .fs .createTmp | .fs (.appendTmp _ _) | .fs (.dropTmp _) => false
  | .fs (.persistBlob _ _) | .fs (.persistSidecar _ _) => false
  | .net _ | .cache _ => false
  | _ => true

theorem Call.resolves_of_publishing {key : ArtifactKey} {entry : IndexEntry} (c : Call)
    (h : c.publishing key entry = true) : c.resolves key = true := by
  cases c with
  | fs c =>
    cases c
    case persistSidecar path e => exact (Bool.and_eq_true _ _ ▸ h).1
    all_goals first | rfl | exact h
  | net c => cases h
  | cache c => cases h

theorem Call.resolves_of_transfers {key : ArtifactKey} (c : Call) (h : c.transfers = true) :
    c.resolves key = true := by
  cases c with
  | fs c => cases c <;> first | rfl | cases h
  | net c => rfl
  | cache c => cases h

theorem FsCall.resolves_of_looks {key : ArtifactKey} (c : FsCall) (h : c.looks = true) :
    Call.resolves key (.fs c) = true := by
  cases c <;> first | rfl | cases h

theorem Call.fills_of_resolves {key : ArtifactKey} (c : Call) (h : c.resolves key = true) :
    c.fills = true := by
  cases c with
  | fs c => cases c <;> first | rfl | cases h
  | net c => rfl
  | cache c => cases h

section fills
variable {H : Sha256} {U : UrlCrate} {ds : Datastore} {artifact : Artifact} {α : Type}

theorem receive_transfers {budget : Option ℕ} {producer : Producer (Option α)}
    (hp : ∀ rcv, (producer rcv).Only fun c => c.transfers = true) :
    (receive H artifact budget producer).Only fun c => c.transfers = true := by
  refine .bind (.perform rfl) fun r => ?_
  cases r with
  | error e => trivial
  | ok tmp =>
    refine .bind (hp _) fun out => ?_
    obtain ⟨r,rcv⟩ := out
    simp only
    match rcv.verdict H artifact r with
    | .error e => exact .bind (.perform rfl) fun _ => trivial
    | .ok none => exact .bind (.perform rfl) fun _ => trivial
    | .ok (some info) => trivial

theorem request_transfers {f : Fetcher} {source : Source} (rcv : Receiver) :
    (f.request H U source rcv).Only fun c => c.transfers = true := by
  refine .bind (navigate_only (fun _ _ => rfl) rfl) fun r => ?_
  match r with
  | .error e => trivial
  | .ok none => trivial
  | .ok (some (response,download)) =>
    have hread : readBody.Only fun c => c.transfers = true := ⟨rfl,fun _ => trivial⟩
    refine .bind (copy_only hread (fun _ _ => rfl) _ _) fun out => ?_
    obtain ⟨r,rcv'⟩ := out
    cases r <;> trivial

theorem fetch_transfers (mirror : Mirror) (key : ArtifactKey) (rcv : Receiver) :
    (mirror.fetch H U key rcv).Only fun c => c.transfers = true := by
  cases mirror with
  | http base =>
    refine .bind (request_transfers _) fun out => ?_
    obtain ⟨r,rcv'⟩ := out
    cases r <;> trivial
  | s3 bucket pre =>
    refine .bind (.perform rfl) fun r => ?_
    match r with
    | .error code => trivial
    | .ok none => trivial
    | .ok (some reads) =>
      have hread : readS3.Only fun c => c.transfers = true := by
        refine ⟨rfl,fun r => ?_⟩
        cases r <;> trivial
      refine .bind (copy_only hread (fun _ _ => rfl) _ _) fun out => ?_
      obtain ⟨r,rcv'⟩ := out
      cases r <;> trivial

theorem fetchFromMirror_resolves (mirror : Mirror) (budget : Option ℕ) :
    (Datastore.fetchFromMirror H U artifact mirror budget).Only fun c => c.resolves artifact.key = true := by
  refine .bind ((receive_transfers (fetch_transfers mirror _)).mono Call.resolves_of_transfers) fun out => ?_
  match out with
  | (.error e,left) => trivial
  | (.ok none,left) => trivial
  | (.ok (some received),left) =>
    exact .bind (publishReceived_only rfl fun c _ _ hc => Call.resolves_of_publishing c hc) fun _ => trivial

theorem fetchFromUpstream_resolves (source : Source) (budget : Option ℕ) :
    (ds.fetchFromUpstream H U artifact source budget).Only fun c => c.resolves artifact.key = true := by
  refine .bind ((receive_transfers request_transfers).mono Call.resolves_of_transfers) fun out => ?_
  match out with
  | (.error e,left) => trivial
  | (.ok none,left) => trivial
  | (.ok (some received),left) =>
    exact .bind (publishReceived_only rfl fun c _ _ hc => Call.resolves_of_publishing c hc) fun _ => trivial

theorem trySources_resolves (sources : List Source) :
    ∀ index budget attempts, (ds.trySources H U artifact sources index budget attempts).run.Only
      fun c => c.resolves artifact.key = true := by
  induction sources with
  | nil => exact fun _ _ _ => trivial
  | cons source sources ih =>
    refine fun index budget attempts => .bind (fetchFromUpstream_resolves _ _) fun out => ?_
    obtain ⟨r,left⟩ := out
    cases r with
    | ok found => trivial
    | error e =>
      simp only
      split
      · trivial
      · split
        · trivial
        · exact ih _ _ _

theorem fetchUpstream_resolves (reason : String) (budget : Option ℕ) :
    (ds.fetchUpstream H U artifact reason budget).run.Only fun c => c.resolves artifact.key = true := by
  unfold Datastore.fetchUpstream
  split
  · trivial
  · split
    · trivial
    · exact trySources_resolves _ _ _ _

theorem fetchChain_resolves (budget : Option ℕ) :
    (ds.fetchChain H U artifact budget).run.Only fun c => c.resolves artifact.key = true := by
  unfold Datastore.fetchChain
  split
  · exact fetchUpstream_resolves _ _
  · refine .bind (fetchFromMirror_resolves _ _) fun out => ?_
    match out with
    | (.ok (some found),left) => trivial
    | (.ok none,left) => exact fetchUpstream_resolves _ _
    | (.error e,left) =>
      simp only
      split
      · trivial
      · exact fetchUpstream_resolves _ _

theorem withLock_only {P : Call → Prop} {name : String} {body : Op α} (hlock : P (.fs (.lock name)))
    (hunlock : P (.fs (.unlock name))) (hbody : body.run.Only P) : (withLock name body).run.Only P :=
  .bind_run (io_only hlock) fun _ => .bind hbody fun _ => .bind (.perform hunlock) fun _ => trivial

/-- What `getWithBudget` does under the lock of its key. -/
def Datastore.resolution (H : Sha256) (U : UrlCrate) (ds : Datastore) (artifact : Artifact)
    (budget : Option ℕ) : Op (List String × ResolveOutcome) := do
  match ← ds.lookupLocal H artifact with
  | some (path,entry) =>
    if budget.any (entry.bytes > ·) then throw .transferLimit
    else return (path,⟨.localDisk,entry.bytes,none⟩)
  | none =>
    if ds.offline then throw (.offlineMiss artifact.key)
    else ds.fetchChain H U artifact budget

theorem getWithBudget_eq (budget : Option ℕ) :
    ds.getWithBudget H U artifact budget = Layout.lock H artifact.key (ds.resolution H U artifact budget) :=
  rfl

theorem resolution_resolves (budget : Option ℕ) :
    (ds.resolution H U artifact budget).run.Only fun c => c.resolves artifact.key = true := by
  refine .bind_run (lookupLocal_only FsCall.resolves_of_looks) fun found => ?_
  cases found with
  | some found =>
    simp only
    split <;> trivial
  | none =>
    simp only
    split
    · trivial
    · exact fetchChain_resolves _

theorem getLimited_fills (limit : ℕ) :
    (ds.getLimited H U artifact limit).run.Only fun c => c.fills = true := by
  refine .bind_run ?_ fun _ => trivial
  rw [getWithBudget_eq]
  exact withLock_only rfl rfl ((resolution_resolves _).mono Call.fills_of_resolves)

theorem entry_only {P : Call → Prop} {key : ArtifactKey} (hread : P (.fs (.readSidecar (indexPath key))))
    (hblob : ∀ digest, P (.fs (.isBlob digest))) : (ds.entry key).Only P := by
  refine .bind (readEntry_only _ _ hread) fun found => ?_
  match found with
  | .error e => trivial
  | .ok none => trivial
  | .ok (some entry) => exact .bind (isFile_only (hblob _)) fun _ => trivial

variable {c : Coordinator}

theorem redirect_only {P : Call → Prop} (info : MirrorObject) (h : P (.net (.objectPresign artifact.key))) :
    (Service.redirect artifact info).run.Only P :=
  .bind_run (.lift_except _) fun _ => .bind_run (.perform h) fun _ => trivial

theorem fill_fills (limit : ℕ) : (Service.fill H U c artifact limit).run.Only fun c => c.fills = true := by
  refine .bind_run (.bind_run (.perform rfl) fun found => ?_) fun info => redirect_only _ rfl
  cases found with
  | some info => trivial
  | none =>
    refine .bind_run (getLimited_fills _) fun _ => .bind_run (.lift (entry_only rfl fun _ => rfl))
      fun entry => ?_
    cases entry with
    | none => trivial
    | some entry => exact .bind_run (.perform rfl) fun _ => trivial

end fills

section reclaims
variable {H : Sha256} {ds : Datastore} {c : Coordinator}

theorem entries_only {P : Call → Prop} (h : ∀ c : FsCall, c.looks = true → P (.fs c)) :
    ds.entries.run.Only P := by
  refine .bind_run (.bind_run (io_only (h _ rfl)) fun _ => trivial) fun keys => ?_
  induction keys with
  | nil => trivial
  | cons key keys ih =>
    refine .bind_run (readEntry_only _ _ (h _ rfl)) fun found => ?_
    cases found with
    | none => exact ih
    | some entry => exact .bind_run ih fun _ => trivial

theorem FsCall.reclaims_of_looks (c : FsCall) (h : c.looks = true) :
    Call.reclaims (.fs c) = true := by
  cases c <;> first | rfl | cases h

theorem sweepOrphans_reclaims (entries : List (ArtifactKey × IndexEntry)) (found : List (String × ℕ)) :
    (Datastore.sweepOrphans entries found).run.Only fun c => c.reclaims = true := by
  induction found with
  | nil => trivial
  | cons e rest ih =>
    unfold Datastore.sweepOrphans
    split
    · exact .bind_run ih fun _ => trivial
    · exact .bind_run (io_only rfl) fun _ => ih

theorem blobs_reclaims : Layout.blobs.run.Only fun c => c.reclaims = true :=
  .bind_run (io_only rfl) fun _ => trivial

theorem gcScan_reclaims : ds.gcScan.run.Only fun c => c.reclaims = true :=
  withLock_only rfl rfl (.bind_run (entries_only FsCall.reclaims_of_looks) fun _ => .bind_run blobs_reclaims fun _ =>
    .bind_run (sweepOrphans_reclaims _ _) fun _ => trivial)

theorem evict_reclaims (sizes : List (String × ℕ)) (key : ArtifactKey) (snapshot : IndexEntry) :
    (ds.evict H sizes key snapshot).run.Only fun c => c.reclaims = true := by
  refine withLock_only rfl rfl (withLock_only rfl rfl ?_)
  refine .bind_run (readEntry_only _ _ rfl) fun found => ?_
  cases found with
  | none => trivial
  | some entry =>
    simp only
    split
    · trivial
    · refine .bind_run (io_only rfl) fun _ =>
        .bind_run (.bind_run (entries_only FsCall.reclaims_of_looks) fun _ => trivial) fun referenced => ?_
      split
      · exact .bind_run (io_only rfl) fun _ => trivial
      · trivial

theorem gcEvict_reclaims (maxBytes : ℕ) (sizes : List (String × ℕ))
    (oldest : List (ArtifactKey × IndexEntry)) :
    ∀ total, (ds.gcEvict H maxBytes sizes oldest total).run.Only fun c => c.reclaims = true := by
  induction oldest with
  | nil => exact fun _ => trivial
  | cons e rest ih =>
    intro total
    unfold Datastore.gcEvict
    split
    · trivial
    · exact .bind_run (evict_reclaims _ _ _) fun _ => .bind_run (ih _) fun _ => trivial

theorem blobBytes_reclaims : Datastore.blobBytes.run.Only fun c => c.reclaims = true := by
  refine withLock_only rfl rfl (.bind_run blobs_reclaims fun found => ?_)
  by_cases h : (found.map Prod.snd).sum < 2^64
  · rw [if_pos h]
    trivial
  · rw [if_neg h]
    trivial

theorem maintain_reclaims : (c.maintain H).run.Only fun c => c.reclaims = true := by
  refine .bind_run blobBytes_reclaims fun _ =>
    .bind_run (.bind_run gcScan_reclaims fun _ => gcEvict_reclaims _ _ _ _) fun _ =>
    .bind_run blobBytes_reclaims fun after => ?_
  split <;> trivial

end reclaims
end StarfieldDatastore
