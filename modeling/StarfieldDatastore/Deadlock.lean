import StarfieldDatastore.Consistency
import StarfieldDatastore.Managed
import StarfieldDatastore.Removal
import StarfieldDatastore.Interleaving.LockOrder

/-! The order in which locks are taken: the coordinator's state, then one key, then the
store. -/
namespace StarfieldDatastore
open Interleaving

/-- The locks of a host: the coordinator's state mutex and the files under `locks/`. -/
inductive Lock
  | mutex
  | file (name : String)
  deriving DecidableEq

/-- The mutex comes first, the lock of the store last. -/
def Lock.rank : Lock → ℕ
  | .mutex => 0
  | .file name => if name = Layout.storeLockName then 2 else 1

/-- What a thread holds after a call that was answered by the second argument. -/
def Lock.after : (c : Call) → c.Ret → Set Lock → Set Lock
  | .fs (.lock name), .ok _, held => insert (.file name) held
  | .fs (.unlock name), _, held => held \ {.file name}
  | .cache .lockState, _, held => insert .mutex held
  | .cache .tryLockState, true, held => insert .mutex held
  | .cache .unlockState, _, held => held \ {.mutex}
  | .cache .unwind, _, held => held ∩ {.mutex}
  | _, _, held => held

/-- `try_lock` never waits. -/
def Lock.acquires : Call → Option Lock
  | .fs (.lock name) => some (.file name)
  | .cache .lockState => some .mutex
  | _ => none

def locking : Locking Call Call.Ret Lock := ⟨Lock.acquires,Lock.after,Lock.rank⟩

def World.owner (w : World) : Lock → Option ThreadId
  | .mutex => w.mutex
  | .file name => w.locks name

/-- The locks of a process that is killed are released, the mutex with its memory. -/
def World.abandon (t : ThreadId) (w : World) : World :=
  { w.release t with mutex := if w.mutex = some t then none else w.mutex }

/-- Calls that neither take nor release a lock. -/
def Call.lockless : Call → Bool
  | .fs (.lock _) | .fs (.unlock _) => false
  | .cache .readState | .cache (.writeState _ _) | .cache .panics => true
  | .cache _ => false
  | _ => true

/-- What threads run: the operations on a cache root, the requests to a managed server and
its start. -/
inductive HostJob
  | operation (op : Operation)
  | request (artifact : Artifact)
  | start (store : Datastore) (policy : ServiceCachePolicy)

def HostJob.run (H : Sha256) (U : UrlCrate) (c : Coordinator) : HostJob → Prog Unit
  | .operation op => op.run H U
  | .request artifact => Service.request H U c artifact >>= fun _ => .done ()
  | .start store policy => (Coordinator.new H store policy).run >>= fun _ => .done ()

def runJobs (H : Sha256) (U : UrlCrate) (c : Coordinator) : List HostJob → Prog Unit
  | [] => .done ()
  | job :: jobs => job.run H U c >>= fun _ => runJobs H U c jobs

/-- Releasing a lock file: it is closed even where unlocking it reports an error. -/
def Call.unlocks : Call → Bool
  | .fs (.unlock _) => true
  | _ => false

/-- Any number of threads, of any processes, on one cache root. -/
def hosts (H : Sha256) (U : UrlCrate) (c : Coordinator) : System ThreadId Call Call.Ret World Unit where
  step t call w r w' := call.Does t w r w' ∧ (call.unlocks = true → call.Works t w r w')
  launch _ _ p := ∃ jobs, p = runJobs H U c jobs
  kill t w w' := w' = w.abandon t

section balanced
variable {H : Sha256} {U : UrlCrate} {α : Type} {held : Set Lock} {ds : Datastore} {artifact : Artifact}

theorem balanced_of_lockless {p : Prog α} (h : p.Only fun c => c.lockless = true) : p.Balanced locking held := by
  refine .of_only (h.mono fun c hc => ?_)
  cases c with
  | fs c => cases c <;> first | exact ⟨rfl,fun _ _ => rfl⟩ | cases hc
  | net c => exact ⟨rfl,fun _ _ => rfl⟩
  | cache c => cases c <;> first | exact ⟨rfl,fun _ _ => rfl⟩ | cases hc

theorem lockless_of_readOnly (c : Call) (h : c.readOnly = true) : c.lockless = true := by
  cases c with
  | fs c => cases c <;> first | rfl | cases h
  | net c => rfl
  | cache c => cases h

theorem lockless_of_looks (c : FsCall) (h : c.looks = true) : Call.lockless (.fs c) = true := by
  cases c <;> first | rfl | cases h

theorem lockless_of_transfers (c : Call) (h : c.transfers = true) : c.lockless = true := by
  cases c with
  | fs c => cases c <;> first | rfl | cases h
  | net c => rfl
  | cache c => cases h

theorem lockless_of_placing {key : ArtifactKey} {entry : IndexEntry} (c : Call) (h : c.placing key entry = true) :
    c.lockless = true := by
  cases c with
  | fs c => cases c <;> first | rfl | cases h
  | net c => cases h
  | cache c => cases h

/-- Only locks below that of the store are held. -/
def Below (held : Set Lock) (n : ℕ) : Prop := ∀ l ∈ held, l.rank < n

theorem rank_store : (Lock.file Layout.storeLockName).rank = 2 := by simp [Lock.rank]

theorem rank_key (key : ArtifactKey) : (Lock.file (Layout.keyLockName H key)).rank = 1 :=
  if_neg (keyLockName_ne H key)

theorem below_key (h : Below held 1) (key : ArtifactKey) :
    Below (insert (.file (Layout.keyLockName H key)) held) 2 := by
  intro l hl
  rcases hl with rfl | hl
  · rw [rank_key]
    exact Nat.one_lt_two
  · exact (h l hl).trans Nat.one_lt_two

/-- The end of something that is done under a lock. -/
theorem unlock_balanced {name : String} {body : Prog α} (hname : Below held (Lock.file name).rank)
    (hbody : body.Balanced locking (insert (.file name) held)) :
    (do
      let result ← body
      let _ ← fs (.unlock name)
      return result : Prog α).Ranked locking (fun _ rest => rest = held) (insert (.file name) held) := by
  have hfresh : Lock.file name ∉ held := fun hmem => Nat.lt_irrefl _ (hname _ hmem)
  refine .bind (hbody.mono fun result rest hrest => ?_)
  subst hrest
  refine .perform_bind (fun l hl => by cases hl) fun r => ?_
  exact Set.insert_sdiff_self_of_notMem hfresh

theorem withLock_balanced {name : String} {body : Op α} (hname : Below held (Lock.file name).rank)
    (hbody : body.run.Balanced locking (insert (.file name) held)) : (withLock name body).run.Balanced locking held := by
  refine .perform_bind (fun l hl => ?_) fun r => ?_
  · cases hl
    exact hname
  · cases r with
    | error e => rfl
    | ok out => exact unlock_balanced hname hbody

theorem lock_balanced {key : ArtifactKey} {body : Op α} (h : Below held 1)
    (hbody : ∀ held', Below held' 2 → body.run.Balanced locking held') :
    (Layout.lock H key body).run.Balanced locking held := by
  refine withLock_balanced ?_ (hbody _ (below_key h key))
  rw [rank_key]
  exact h

theorem storeLock_balanced {body : Op α} (h : Below held 2) (hbody : body.run.Only fun c => c.lockless = true) :
    (Layout.storeLock body).run.Balanced locking held := by
  refine withLock_balanced ?_ (balanced_of_lockless hbody)
  rw [rank_store]
  exact h

theorem publish_balanced (h : Below held 2) (tmp : ℕ) (entry : IndexEntry) :
    (publish H artifact tmp entry).run.Balanced locking held := by
  have hstore : Below held (Lock.file Layout.storeLockName).rank := by
    rw [rank_store]
    exact h
  refine .bind (balanced_of_lockless (validate_only rfl)) fun r => ?_
  cases r with
  | error e => exact balanced_of_lockless (.bind (.perform rfl) fun _ => trivial)
  | ok valid =>
    refine .perform_bind (fun l hl => ?_) fun r => ?_
    · cases hl
      exact hstore
    · cases r with
      | error e => exact balanced_of_lockless (.bind (.perform rfl) fun _ => trivial)
      | ok out =>
        exact unlock_balanced hstore (balanced_of_lockless ((publishLocked_placing _).mono lockless_of_placing))

theorem publishReceived_balanced (h : Below held 2) {received : Received α} {layer : Layer}
    {source etag identity : Option String} :
    (Datastore.publishReceived H artifact received layer source etag identity).run.Balanced locking held :=
  .bind_run (.lift (balanced_of_lockless (nowUnix_only rfl))) fun _ =>
    .bind_run (publish_balanced h _ _) fun _ => rfl

theorem receive_balanced {budget : Option ℕ} {producer : Producer (Option α)}
    (hp : ∀ rcv, (producer rcv).Only fun c => c.transfers = true) :
    (receive H artifact budget producer).Balanced locking held :=
  balanced_of_lockless ((receive_transfers hp).mono lockless_of_transfers)

theorem fetchFromMirror_balanced (h : Below held 2) (mirror : Mirror) (budget : Option ℕ) :
    (Datastore.fetchFromMirror H U artifact mirror budget).Balanced locking held := by
  refine .bind (receive_balanced (fetch_transfers mirror _)) fun out => ?_
  match out with
  | (.error e,left) => rfl
  | (.ok none,left) => rfl
  | (.ok (some received),left) => exact .bind (publishReceived_balanced h) fun _ => rfl

theorem fetchFromUpstream_balanced (h : Below held 2) (source : Source) (budget : Option ℕ) :
    (ds.fetchFromUpstream H U artifact source budget).Balanced locking held := by
  refine .bind (receive_balanced request_transfers) fun out => ?_
  match out with
  | (.error e,left) => rfl
  | (.ok none,left) => rfl
  | (.ok (some received),left) => exact .bind (publishReceived_balanced h) fun _ => rfl

theorem trySources_balanced (h : Below held 2) (sources : List Source) :
    ∀ index budget attempts, (ds.trySources H U artifact sources index budget attempts).run.Balanced locking held := by
  induction sources with
  | nil => exact fun _ _ _ => rfl
  | cons source sources ih =>
    intro index budget attempts
    refine .bind (fetchFromUpstream_balanced h _ _) fun out => ?_
    obtain ⟨r,left⟩ := out
    cases r with
    | ok found => rfl
    | error e =>
      simp only
      split
      · rfl
      · split
        · rfl
        · exact ih _ _ _

theorem fetchUpstream_balanced (h : Below held 2) (reason : String) (budget : Option ℕ) :
    (ds.fetchUpstream H U artifact reason budget).run.Balanced locking held := by
  unfold Datastore.fetchUpstream
  split
  · rfl
  · split
    · rfl
    · exact trySources_balanced h _ _ _ _

theorem fetchChain_balanced (h : Below held 2) (budget : Option ℕ) :
    (ds.fetchChain H U artifact budget).run.Balanced locking held := by
  unfold Datastore.fetchChain
  split
  · exact fetchUpstream_balanced h _ _
  · refine .bind (fetchFromMirror_balanced h _ _) fun out => ?_
    match out with
    | (.ok (some found),left) => rfl
    | (.ok none,left) => exact fetchUpstream_balanced h _ _
    | (.error e,left) =>
      simp only
      split
      · rfl
      · exact fetchUpstream_balanced h _ _

theorem resolution_balanced (h : Below held 2) (budget : Option ℕ) :
    (ds.resolution H U artifact budget).run.Balanced locking held := by
  refine .bind_run (balanced_of_lockless (lookupLocal_only lockless_of_looks)) fun found => ?_
  cases found with
  | some found =>
    simp only
    split <;> rfl
  | none =>
    simp only
    split
    · rfl
    · exact fetchChain_balanced h _

theorem getWithBudget_balanced (h : Below held 1) (budget : Option ℕ) :
    (ds.getWithBudget H U artifact budget).run.Balanced locking held := by
  rw [getWithBudget_eq]
  exact lock_balanced h fun _ h' => resolution_balanced h' _

theorem importFile_balanced (h : Below held 1) (path : String) :
    (Datastore.importFile H artifact path).run.Balanced locking held := by
  rw [importFile_eq]
  refine lock_balanced h fun _ h' => .bind_run (balanced_of_lockless (io_only rfl)) fun reads =>
    .bind_run (.lift (receive_balanced (copyImport_transfers reads))) fun received =>
    .bind_run (balanced_of_lockless (.lift_except _)) fun found => ?_
  cases found with
  | none => rfl
  | some received => exact .bind_run (.lift (balanced_of_lockless (nowUnix_only rfl))) fun _ => publish_balanced h' _ _

theorem digestReferenced_lockless (digest : String) :
    (ds.digestReferenced digest).run.Only fun c => c.lockless = true :=
  .bind_run (entries_only lockless_of_looks) fun _ => trivial

theorem remove_balanced (h : Below held 1) (key : ArtifactKey) : (ds.remove H key).run.Balanced locking held := by
  refine lock_balanced h fun _ h' => storeLock_balanced h' ?_
  refine .bind_run (readEntry_only _ _ rfl) fun found => ?_
  cases found with
  | none => trivial
  | some entry =>
    refine .bind_run (io_only rfl) fun _ => .bind_run (digestReferenced_lockless _) fun referenced => ?_
    split
    · exact io_only rfl
    · trivial

theorem sweepOrphans_lockless (entries : List (ArtifactKey × IndexEntry)) (found : List (String × ℕ)) :
    (Datastore.sweepOrphans entries found).run.Only fun c => c.lockless = true := by
  induction found with
  | nil => trivial
  | cons e rest ih =>
    unfold Datastore.sweepOrphans
    split
    · exact .bind_run ih fun _ => trivial
    · exact .bind_run (io_only rfl) fun _ => ih

theorem blobs_lockless : Layout.blobs.run.Only fun c => c.lockless = true :=
  .bind_run (io_only rfl) fun _ => trivial

theorem gcScan_balanced (h : Below held 2) : ds.gcScan.run.Balanced locking held :=
  storeLock_balanced h (.bind_run (entries_only lockless_of_looks) fun _ => .bind_run blobs_lockless fun _ =>
    .bind_run (sweepOrphans_lockless _ _) fun _ => trivial)

theorem evict_balanced (h : Below held 1) (sizes : List (String × ℕ)) (key : ArtifactKey) (snapshot : IndexEntry) :
    (ds.evict H sizes key snapshot).run.Balanced locking held := by
  refine lock_balanced h fun _ h' => storeLock_balanced h' ?_
  refine .bind_run (readEntry_only _ _ rfl) fun found => ?_
  cases found with
  | none => trivial
  | some entry =>
    simp only
    split
    · trivial
    · refine .bind_run (io_only rfl) fun _ => .bind_run (digestReferenced_lockless _) fun referenced => ?_
      split
      · exact .bind_run (io_only rfl) fun _ => trivial
      · trivial

theorem gcEvict_balanced (h : Below held 1) (maxBytes : ℕ) (sizes : List (String × ℕ))
    (oldest : List (ArtifactKey × IndexEntry)) :
    ∀ total, (ds.gcEvict H maxBytes sizes oldest total).run.Balanced locking held := by
  induction oldest with
  | nil => exact fun _ => rfl
  | cons e rest ih =>
    intro total
    unfold Datastore.gcEvict
    split
    · rfl
    · exact .bind_run (evict_balanced h _ _ _) fun _ => .bind_run (ih _) fun _ => rfl

/-- `gc` takes the lock of the store alone, and then key by key under the lock of the key. -/
theorem gc_balanced (h : Below held 1) (maxBytes : ℕ) : (ds.gc H maxBytes).run.Balanced locking held :=
  .bind_run (gcScan_balanced fun l hl => (h l hl).trans Nat.one_lt_two) fun _ => gcEvict_balanced h _ _ _ _

theorem blobBytes_balanced (h : Below held 2) : Datastore.blobBytes.run.Balanced locking held := by
  refine storeLock_balanced h (.bind_run blobs_lockless fun found => ?_)
  by_cases hfits : (found.map Prod.snd).sum < 2^64
  · rw [if_pos hfits]
    trivial
  · rw [if_neg hfits]
    trivial

variable {c : Coordinator}

theorem maintain_balanced (h : Below held 1) : (c.maintain H).run.Balanced locking held := by
  have hstore : Below held 2 := fun l hl => (h l hl).trans Nat.one_lt_two
  refine .bind_run (blobBytes_balanced hstore) fun _ => .bind_run (gc_balanced h _) fun _ =>
    .bind_run (blobBytes_balanced hstore) fun after => ?_
  split <;> rfl

/-- Outside of the coordinator nothing is done with the mutex. -/
theorem mutex_after {call : Call} (h : ∀ m, call ≠ .cache m) (r : call.Ret) (now : Set Lock) :
    locking.after call r now ∩ {.mutex} = now ∩ {.mutex} := by
  ext l
  simp only [Set.mem_inter_iff,Set.mem_singleton_iff,and_congr_left_iff]
  rintro rfl
  cases call with
  | net call => rfl
  | cache m => exact absurd rfl (h m)
  | fs call =>
    cases call with
    | lock name => cases r <;> simp [locking,Lock.after]
    | unlock name => cases r <;> simp [locking,Lock.after]
    | _ => cases r <;> rfl

/-- Unwinding gives back the lock files, and what is held besides is the mutex. -/
theorem interruptible_balanced {p : Prog α} (hheld : held ⊆ {.mutex}) (hp : p.Balanced locking held)
    (hcache : p.Only fun c => ∀ m, c ≠ .cache m) : (interruptible p).Balanced locking held := by
  have hall : ∀ (p : Prog α) (now : Set Lock), now ∩ {.mutex} = held →
      p.Ranked locking (fun _ rest => rest = held) now → (p.Only fun c => ∀ m, c ≠ .cache m) →
      (interruptible p).Ranked locking (fun _ rest => rest = held) now := by
    intro p
    induction p with
    | done a =>
      intro now hnow hp _
      refine .perform_bind (fun l hl => by cases hl) fun panics => ?_
      cases panics with
      | true => exact .perform_bind (fun l hl => by cases hl) fun _ => hnow
      | false => exact hp
    | call call next ih =>
      intro now hnow hp hcache
      refine .perform_bind (fun l hl => by cases hl) fun panics => ?_
      cases panics with
      | true => exact .perform_bind (fun l hl => by cases hl) fun _ => hnow
      | false =>
        refine ⟨hp.1,fun r => ih r _ ?_ (hp.2 r) (hcache.2 r)⟩
        rw [← hnow]
        exact mutex_after hcache.1 r now
  exact hall p held (Set.inter_eq_left.mpr hheld) hp hcache

theorem admitLocked_lockless (limit : ℕ) : (c.admitLocked limit).run.Only fun c => c.lockless = true := by
  refine .bind_run (.lift (.perform rfl)) fun state => ?_
  split
  · trivial
  · split
    · trivial
    · split
      · trivial
      · split
        · trivial
        · refine .bind_run (io_only rfl) fun space => ?_
          split
          · trivial
          · exact .lift (.perform rfl)

/-- Admission gives the mutex back, or does not get it. -/
theorem admitFill_balanced (expected : Option ℕ) : (c.admitFill expected).run.Balanced locking ∅ := by
  unfold Coordinator.admitFill
  simp only
  split
  · rfl
  · refine .perform_bind (fun l hl => by cases hl) fun free => ?_
    cases free with
    | false => rfl
    | true =>
      refine .bind ((balanced_of_lockless (admitLocked_lockless _)).mono fun result rest hrest => ?_)
      subst hrest
      refine .perform_bind (fun l hl => by cases hl) fun _ => ?_
      exact Set.insert_sdiff_self_of_notMem (Set.notMem_empty _)

theorem unlockState_ranked : (cache .unlockState).Ranked locking (fun _ rest => rest = ∅) {.mutex} := by
  refine .perform_bind (fun l hl => by cases hl) fun _ => ?_
  exact Set.sdiff_self

theorem drain_balanced (state : CacheState) :
    (c.drain H state).Ranked locking (fun _ rest => rest = ∅) {.mutex} := by
  have hbelow : Below {Lock.mutex} 1 := by
    rintro l rfl
    exact Nat.zero_lt_one
  have hmaintain : (interruptible (c.maintain H).run).Balanced locking {.mutex} :=
    interruptible_balanced subset_rfl (maintain_balanced hbelow)
      (maintain_reclaims.mono fun call hcall m hm => by subst hm; cases hcall)
  unfold Coordinator.drain
  split
  · exact unlockState_ranked
  · refine .bind (hmaintain.mono fun result rest hrest => ?_)
    subst hrest
    exact .perform_bind (fun l hl => by cases hl) fun _ => unlockState_ranked

/-- The mutex is taken first and kept for the whole maintenance. -/
theorem finish_balanced : (c.finish H).Balanced locking ∅ := by
  refine .perform_bind (fun l _ l' hl' => absurd hl' (Set.notMem_empty _)) fun _ => ?_
  have hone : locking.after (.cache .lockState) () ∅ = {.mutex} := insert_empty_eq _
  rw [hone]
  refine .perform_bind (fun l hl => by cases hl) fun state => ?_
  refine .perform_bind (fun l hl => by cases hl) fun _ => ?_
  exact @drain_balanced H c _

theorem below_empty (n : ℕ) : Below ∅ n := fun _ hl => absurd hl (Set.notMem_empty _)

theorem fill_balanced (limit : ℕ) : (Service.fill H U c artifact limit).run.Balanced locking ∅ := by
  refine .bind_run (.bind_run (balanced_of_lockless (.perform rfl)) fun found => ?_) fun info =>
    balanced_of_lockless (redirect_only _ rfl)
  cases found with
  | some info => rfl
  | none =>
    refine .bind_run (.bind_run (getWithBudget_balanced (below_empty 1) _) fun _ => rfl) fun _ =>
      .bind_run (.lift (balanced_of_lockless (entry_only rfl fun _ => rfl))) fun entry => ?_
    cases entry with
    | none => rfl
    | some entry => exact .bind_run (balanced_of_lockless (.perform rfl)) fun _ => rfl

theorem coldFill_balanced : (Service.coldFill H U c artifact).Balanced locking ∅ := by
  refine .bind (admitFill_balanced _) fun admitted => ?_
  cases admitted with
  | error e => rfl
  | ok limit =>
    have hfill : (interruptible (Service.fill H U c artifact limit).run).Balanced locking ∅ :=
      interruptible_balanced (Set.empty_subset _) (fill_balanced limit) ((fill_fills limit).mono fun call hcall m hm => by subst hm; cases hcall)
    exact .bind hfill fun _ => .bind finish_balanced fun _ => rfl

theorem request_balanced : (Service.request H U c artifact).Balanced locking ∅ := by
  have hhit : (interruptible (Service.hit artifact).run).Balanced locking ∅ :=
    interruptible_balanced (Set.empty_subset _) (balanced_of_lockless (hit_readOnly.mono lockless_of_readOnly))
    (hit_readOnly.mono fun call hcall m hm => by subst hm; cases hcall)
  refine .bind hhit fun found => ?_
  match found with
  | none => rfl
  | some (.error e) => rfl
  | some (.ok (some found)) => rfl
  | some (.ok none) => exact coldFill_balanced

theorem operation_balanced (op : Operation) : (op.run H U).Balanced locking ∅ := by
  have h := below_empty 1
  cases op with
  | get ds artifact => exact .bind (.bind_run (getWithBudget_balanced h _) fun _ => rfl) fun _ => rfl
  | getLimited ds artifact bytes => exact .bind (.bind_run (getWithBudget_balanced h _) fun _ => rfl) fun _ => rfl
  | importFile artifact path => exact .bind (importFile_balanced h _) fun _ => rfl
  | remove ds key => exact .bind (remove_balanced h _) fun _ => rfl
  | gc ds maxBytes => exact .bind (gc_balanced h _) fun _ => rfl

theorem start_balanced (store : Datastore) (policy : ServiceCachePolicy) :
    (Coordinator.new H store policy).run.Balanced locking ∅ := by
  have hmaintain : ∀ c : Coordinator, (c.maintain H).run.Balanced locking ∅ := fun _ => maintain_balanced (below_empty 1)
  refine .bind_run (balanced_of_lockless (.lift_except _)) fun _ =>
    .bind_run (balanced_of_lockless (io_only rfl)) fun sizes => ?_
  by_cases hoverflow : sizes.sum ≥ 2^64
  · rw [if_pos hoverflow]
    rfl
  · rw [if_neg hoverflow]
    exact .bind_run (hmaintain _) fun _ => rfl

theorem runJobs_balanced (jobs : List HostJob) : (runJobs H U c jobs).Balanced locking ∅ := by
  induction jobs with
  | nil => rfl
  | cons job jobs ih =>
    refine .bind ?_ fun _ => ih
    cases job with
    | operation op => exact operation_balanced op
    | request artifact => exact .bind request_balanced fun _ => rfl
    | start store policy => exact .bind (start_balanced store policy) fun _ => rfl

end balanced

section owners
variable {H : Sha256} {U : UrlCrate} {co : Coordinator} {t u : ThreadId} {w w' : World} {lock : Lock} {gives : Set Lock}

/-- A thread takes a lock that is free. -/
structure Takes (t : ThreadId) (lock : Lock) (w w' : World) : Prop where
  free : w.owner lock = none
  owner : ∀ l, w'.owner l = if l = lock then some t else w.owner l

/-- A thread gives up some of the locks that it holds. -/
def Releases (t : ThreadId) (gives : Set Lock) (w w' : World) : Prop :=
  ∀ l, (w'.owner l = some t ↔ w.owner l = some t ∧ l ∉ gives) ∧
    ∀ u ≠ t, w'.owner l = some u ↔ w.owner l = some u

theorem Takes.held (h : Takes t lock w w') : {l | w'.owner l = some t} = insert lock {l | w.owner l = some t} := by
  ext l
  simp only [Set.mem_ofPred_eq,Set.mem_insert_iff,h.owner]
  by_cases hl : l = lock <;> simp [hl]

theorem Takes.others (h : Takes t lock w w') (hu : u ≠ t) (l : Lock) : w'.owner l = some u ↔ w.owner l = some u := by
  rw [h.owner]
  by_cases hl : l = lock
  · simp [hl,h.free,hu.symm]
  · simp [hl]

theorem Releases.held (h : Releases t gives w w') : {l | w'.owner l = some t} = {l | w.owner l = some t} \ gives := by
  ext l
  exact (h l).1

theorem Releases.of_eq (h : ∀ l, w'.owner l = w.owner l) : Releases t ∅ w w' := by
  intro l
  simp [h l]

theorem owner_setLock (name : String) (o : Option ThreadId) (l : Lock) :
    (w.setLock name o).owner l = if l = .file name then o else w.owner l := by
  cases l with
  | mutex => rfl
  | file other => simp only [World.owner,World.setLock,Function.update_apply,Lock.file.injEq]

theorem owner_setMutex (o : Option ThreadId) (l : Lock) :
    World.owner { w with mutex := o } l = if l = .mutex then o else w.owner l := by
  cases l with
  | mutex => rfl
  | file name => rfl

/-- Giving up one lock, if it is one's own. -/
theorem Releases.one (hheld : w.owner lock = some t) (h : ∀ l, w'.owner l = if l = lock then none else w.owner l) :
    Releases t {lock} w w' := by
  intro l
  rw [h]
  by_cases hl : l = lock
  · subst hl
    simp [hheld,eq_comm]
  · simp [hl]

theorem Releases.nothing (hheld : w.owner lock ≠ some t) : Releases t {lock} w w := by
  intro l
  refine ⟨⟨fun h => ⟨h,?_⟩,And.left⟩,fun _ _ => Iff.rfl⟩
  rintro rfl
  exact hheld h

theorem owner_lockless {c : Call} {r : c.Ret} (hc : c.lockless = true) (hd : c.Does t w r w') (l : Lock) :
    w'.owner l = w.owner l := by
  rcases hd with ⟨x,hx⟩ | hf
  · cases c with
    | net c =>
      cases hx
      rfl
    | cache c =>
      cases c with
      | writeState state note =>
        cases hx
        cases note <;> cases l <;> rfl
      | readState =>
        cases hx
        rfl
      | panics =>
        cases hx
        rfl
      | _ => cases hc
    | fs c =>
      cases c <;> simp only [World.exec,World.runFs] at hx <;> repeat' split at hx
      all_goals cases hc
      all_goals cases hx
      all_goals cases l <;> rfl
  · cases hf with
    | fs c w e => rfl
    | append e n hl => cases l <;> rfl

theorem cleared (o : Option ThreadId) : (if o = some t then none else o) ≠ some t ∧
    ∀ u ≠ t, (if o = some t then none else o) = some u ↔ o = some u := by
  by_cases ho : o = some t
  · simp [ho,eq_comm]
  · simp [ho]

/-- A step takes one free lock or gives up some of the thread's own. -/
theorem owner_step {c : Call} {r : c.Ret} (hd : c.Does t w r w') (hworks : c.unlocks = true → c.Works t w r w') :
    (∃ lock, Takes t lock w w' ∧ ∀ held, locking.after c r held = insert lock held) ∨
      ∃ gives, Releases t gives w w' ∧ ∀ held, locking.after c r held = held \ gives := by
  have idle : w' = w → (∀ held, locking.after c r held = held) →
      ∃ gives, Releases t gives w w' ∧ ∀ held, locking.after c r held = held \ gives := by
    rintro rfl hafter
    exact ⟨∅,.of_eq fun _ => rfl,fun held => by rw [hafter,Set.sdiff_empty]⟩
  by_cases hc : c.lockless = true
  · refine .inr ⟨∅,.of_eq (owner_lockless hc hd),fun held => ?_⟩
    rw [Set.sdiff_empty]
    cases c with
    | net c => rfl
    | fs c => cases c <;> first | rfl | cases hc
    | cache c => cases c <;> first | rfl | cases hc
  · cases c with
    | net c => exact absurd rfl hc
    | fs c =>
      cases c with
      | lock name =>
        cases r with
        | error e => exact .inr (idle (hd.error (by simp)) fun _ => rfl)
        | ok out =>
          obtain ⟨hfree,rfl⟩ := hd.lock
          exact .inl ⟨.file name,⟨hfree,owner_setLock name _⟩,fun _ => rfl⟩
      | unlock name =>
        refine .inr ⟨{.file name},?_,fun _ => rfl⟩
        obtain ⟨x,hx⟩ := hworks rfl
        simp only [World.exec,World.runFs] at hx
        by_cases hheld : w.locks name = some t
        · rw [if_pos hheld] at hx
          cases hx
          exact .one hheld (owner_setLock name none)
        · rw [if_neg hheld] at hx
          cases hx
          exact .nothing hheld
      | _ => exact absurd rfl hc
    | cache c =>
      cases c with
      | tryLockState =>
        rcases hd.tryLockState with ⟨rfl,hfree,rfl⟩ | ⟨rfl,-,hsame⟩
        · exact .inl ⟨.mutex,⟨hfree,owner_setMutex _⟩,fun _ => rfl⟩
        · exact .inr (idle hsame fun _ => rfl)
      | lockState =>
        obtain ⟨hfree,rfl⟩ := hd.lockState
        exact .inl ⟨.mutex,⟨hfree,owner_setMutex _⟩,fun _ => rfl⟩
      | unlockState =>
        refine .inr ⟨{.mutex},?_,fun _ => rfl⟩
        rcases hd with ⟨x,hx⟩ | hf
        · simp only [World.exec,World.runCache] at hx
          by_cases hheld : w.mutex = some t
          · rw [if_pos hheld] at hx
            cases hx
            exact .one hheld (owner_setMutex none)
          · rw [if_neg hheld] at hx
            cases hx
            exact .nothing hheld
        · cases hf
      | unwind =>
        refine .inr ⟨{.mutex}ᶜ,?_,fun _ => Set.sdiff_compl.symm⟩
        have hw := hd.unwind
        subst hw
        intro l
        cases l with
        | mutex => simp [World.owner,World.release,World.dropOwned]
        | file name =>
          obtain ⟨hgone,hothers⟩ := cleared (t := t) (w.locks name)
          exact ⟨⟨fun h => absurd h hgone,fun h => absurd (by simp) h.2⟩,hothers⟩
      | _ => exact absurd rfl hc

/-- A thread that is killed holds nothing any more. -/
theorem abandon_releases : Releases t Set.univ w (w.abandon t) := by
  have hall : ∀ l, (w.abandon t).owner l = if w.owner l = some t then none else w.owner l := by
    intro l
    cases l <;> rfl
  intro l
  obtain ⟨hgone,hothers⟩ := cleared (t := t) (w.owner l)
  rw [hall]
  exact ⟨⟨fun h => absurd h hgone,fun h => absurd (Set.mem_univ l) h.2⟩,hothers⟩

theorem hosts_locks : (hosts H U co).Locks locking World.owner where
  call := by
    rintro t c w r w' ⟨hd,hworks⟩
    rcases owner_step hd hworks with ⟨lock,htakes,hafter⟩ | ⟨gives,hreleases,hafter⟩
    · rw [htakes.held,hafter]
    · rw [hreleases.held,hafter]
  others := by
    rintro t c w r w' u ⟨hd,hworks⟩ hu l
    rcases owner_step hd hworks with ⟨lock,htakes,-⟩ | ⟨gives,hreleases,-⟩
    · exact htakes.others hu l
    · exact (hreleases l).2 u hu
  kill := by
    rintro t w w' rfl l h
    exact ((abandon_releases l).1.mp h).2 (Set.mem_univ l)
  kill_others := by
    rintro t w w' u rfl hu l
    exact (abandon_releases l).2 u hu
  launch := by
    rintro t w p ⟨jobs,rfl⟩
    exact runJobs_balanced jobs

/-- Whatever the threads of a host run, as long as one of them is unfinished, an unfinished
one waits for no lock; and they never wait in a cycle. -/
theorem never_deadlocked {c : Config ThreadId Call Call.Ret World Unit} (hfree : ∀ l, w.owner l = none)
    (hr : (hosts H U co).Reaches (System.init w) c) :
    ((∃ t, System.Unfinished c t) →
      ∃ t, System.Unfinished c t ∧ ∀ u, ¬System.Waits locking World.owner c t u) ∧
    ∀ t, ¬Relation.TransGen (System.Waits locking World.owner c) t t := by
  have hrank : ∀ l, locking.rank l ≤ 2 := by
    intro l
    cases l with
    | mutex => exact Nat.zero_le 2
    | file name =>
      simp only [locking,Lock.rank]
      split <;> omega
  constructor
  · rintro ⟨t,ht⟩
    exact hosts_locks.unblocked hrank hfree hr ht
  · exact hosts_locks.acyclic hfree hr

/-- Two imports under one key: the second waits for the first, which goes on. -/
theorem never_deadlocked_pair : ∃ c, (hosts .sample (twoHosts "a.com" "b.org") ⟨.alone,.sample⟩).Reaches
      (System.init .fresh) c ∧ System.Waits locking World.owner c 1 0 ∧
    ∃ t, System.Unfinished c t ∧ ∀ u, ¬System.Waits locking World.owner c t u := by
  let jobs : List HostJob := [.operation (.importFile .sample "/abc")]
  obtain ⟨c,hr,hwaits⟩ : ∃ c, (hosts .sample (twoHosts "a.com" "b.org") ⟨.alone,.sample⟩).Reaches
      (System.init .fresh) c ∧ System.Waits locking World.owner c 1 0 :=
    ⟨_,.tail (.tail (.tail .refl (.launch (t := 0) rfl ⟨jobs,rfl⟩)) (.launch (t := 1) rfl ⟨jobs,rfl⟩))
      (.call (t := 0) rfl ⟨.inl ⟨(),rfl⟩,fun _ => ⟨(),rfl⟩⟩),_,_,_,_,rfl,rfl,rfl⟩
  have hfree : ∀ l, World.fresh.owner l = none := by
    intro l
    cases l <;> rfl
  have hunfinished : System.Unfinished c 1 := by
    obtain ⟨s₀,call,next,l,hrunning,-⟩ := hwaits
    exact ⟨s₀,_,hrunning⟩
  exact ⟨c,hr,hwaits,(never_deadlocked hfree hr).1 ⟨1,hunfinished⟩⟩

end owners
end StarfieldDatastore
