import StarfieldDatastore.Fetch

/-! The store: the local content-addressed layer and the resolution chain local disk,
mirror, upstream. -/
namespace StarfieldDatastore
open Interleaving

structure ResolveOutcome where
  layer : Layer
  bytes : ℕ
  /-- Which source succeeded, when the layer is upstream. -/
  sourceIndex : Option ℕ
  deriving DecidableEq, Repr

def IndexEntry.new (digest : String) (bytes : ℕ) (fetchedAt : ℕ) (layer : Layer) : IndexEntry :=
  ⟨digest,bytes,fetchedAt,none,none,none,layer⟩

/-- A received body in its temporary file, with what its producer had to say. -/
structure Received (α : Type) where
  tmp : ℕ
  digest : String
  bytes : ℕ
  info : α

structure Datastore where
  layout : Layout
  mirror : Option Mirror
  fetcher : Fetcher
  allowUpstream : Bool
  offline : Bool
  maxBytes : Option ℕ

def reject (artifact : Artifact) (check got : String) : DatastoreError :=
  .contentRejected artifact.key ⟨check,got⟩

def rejectFailure (artifact : Artifact) : Except CheckFailure Unit → Except DatastoreError Unit
  | .ok () => .ok ()
  | .error failure => .error (.contentRejected artifact.key failure)

/-- The part of `validate` that looks at the recorded size and digest only. -/
def validatePins (artifact : Artifact) (bytes : ℕ) (digest : String) :
    Except DatastoreError Unit :=
  if artifact.expectedBytes.any (· ≠ bytes) then
    .error (reject artifact "expected_bytes"
      s!"{bytes} bytes, expected {artifact.expectedBytes.getD 0}")
  else
    match artifact.check.pinnedSha256s.find? (· ≠ digest) with
    | some pin => .error (reject artifact "Sha256" s!"digest {digest}, expected {pin}")
    | none => .ok ()

/-- What `check_file` reports when the file cannot be read. -/
def readFailure (error : IoError) : CheckFailure := ⟨"Read",error.text⟩

/-- Everything that must hold before bytes become a blob. `read` reads the file. -/
def validate (H : Sha256) (artifact : Artifact) (read : FsCall)
    (content : read.Out → Bytes) (bytes : ℕ) (digest : String) : Op Unit := do
  validatePins artifact bytes digest
  match ← fs read with
  | .error e => throw (.contentRejected artifact.key (readFailure e))
  | .ok out =>
    rejectFailure artifact (artifact.check.withoutSha256.checkFile H (content out))

/-- What `receive` makes of the producer's result and the state of the sink. `none` means
that there is no object. -/
def Receiver.verdict {α : Type} (H : Sha256) (artifact : Artifact) (w : Receiver)
    (result : Except DatastoreError (Option α)) : Except DatastoreError (Option α) :=
  if w.limitExceeded then .error .transferLimit
  else
    match result, w.rejected with
    | .error (.io _), some failure => .error (.contentRejected artifact.key failure)
    | .error e, _ => .error e
    | .ok _, some failure => .error (.contentRejected artifact.key failure)
    | .ok none, none => .ok none
    | .ok (some info), none =>
      match w.finishPrefix H with
      | .ok () => .ok (some info)
      | .error failure => .error (.contentRejected artifact.key failure)

/-- The end of `receive`. On every way out but success the temporary file is dropped. -/
def Receiver.conclude {α : Type} (H : Sha256) (tmp : ℕ) (w : Receiver) :
    Except DatastoreError (Option α) →
      Prog (Except DatastoreError (Option (Received α)) × Option ℕ)
  | .error e => do
    let _ ← fs (.dropTmp tmp)
    return (.error e,w.budget)
  | .ok none => do
    let _ ← fs (.dropTmp tmp)
    return (.ok none,w.budget)
  | .ok (some info) => return (.ok (some ⟨tmp,(w.finish H).1,(w.finish H).2,info⟩),w.budget)

/-- Runs `producer` against a hashing temporary file, and returns what is left of the
budget. -/
def receive {α : Type} (H : Sha256) (artifact : Artifact) (budget : Option ℕ)
    (producer : Producer (Option α)) :
    Prog (Except DatastoreError (Option (Received α)) × Option ℕ) := do
  match ← fs .createTmp with
  | .error e => return (.error (.io e),budget)
  | .ok tmp =>
    let (result,w) ← producer (.new tmp artifact.check budget)
    w.conclude H tmp (w.verdict H artifact result)

def corruptBlob (digest : String) : String :=
  s!"an existing blob at {digest} no longer hashes to its address; " ++
    "run verify and remove the keys it reports"

/-- The part of `publish` that runs under the store lock. -/
def publishLocked (H : Sha256) (artifact : Artifact) (tmp : ℕ) (entry : IndexEntry) :
    Op (List String) := do
  match ← Layout.publish H tmp entry.digest with
  | none => throw (reject artifact "cached blob digest" (corruptBlob entry.digest))
  | some path =>
    Layout.writeEntry artifact.key entry
    return path

/-- Validates, then moves the temporary file into place and writes the sidecar, under
the store lock. -/
def publish (H : Sha256) (artifact : Artifact) (tmp : ℕ) (entry : IndexEntry) :
    Op (List String) := ExceptT.mk do
  match ← (validate H artifact (.readTmp tmp) id entry.bytes entry.digest).run with
  | .error e => do
    let _ ← fs (.dropTmp tmp)
    return .error e
  | .ok () =>
    match ← fs (.lock Layout.storeLockName) with
    | .error e => do
      let _ ← fs (.dropTmp tmp)
      return .error (.io e)
    | .ok () => do
      let result ← (publishLocked H artifact tmp entry).run
      let _ ← fs (.unlock Layout.storeLockName)
      return result

/-- The clock in Unix seconds; before the epoch it reads 0. -/
def nowUnix : Prog ℕ := fs .now >>= fun
  | .ok time => .done time
  | .error _ => .done 0

/-- A key whose blob is missing, hashes to a different digest, or has a size that
disagrees with the sidecar. -/
structure VerifyFailure where
  key : ArtifactKey
  expected : String
  actual : Option String
  reason : String
  deriving DecidableEq

/-- A cache without mirror and with nothing to fetch from. -/
def Datastore.alone : Datastore := ⟨⟨"/cache"⟩,none,⟨none⟩,true,true,none⟩

namespace Datastore
variable (H : Sha256) (U : UrlCrate) (ds : Datastore)

def entries : Op (List (ArtifactKey × IndexEntry)) := do
  go (← Layout.keys)
where
  go : List ArtifactKey → Op (List (ArtifactKey × IndexEntry))
    | [] => return []
    | key :: keys => do
      match ← ds.layout.readEntry key with
      | none => go keys
      | some entry => return (key,entry) :: (← go keys)

def digestReferenced (digest : String) : Op Bool := do
  return (← ds.entries).any fun e => e.2.digest = digest

def corrupt (artifact : Artifact) (what got : String) : DatastoreError :=
  reject artifact ("cached blob " ++ what)
    s!"{got}; the blob is corrupt — run verify and remove the keys it reports"

/-- A cached blob is served only after it has been rehashed and checked again. A blob
whose pin has moved on is a miss. -/
def localHit (artifact : Artifact) (entry : IndexEntry) : Op (Option (List String)) := do
  if !(← isFile entry.digest) then return none
  else if artifact.check.pinnedSha256s.any (· ≠ entry.digest) then return none
  else
    let length ← io (.blobLen entry.digest)
    if length ≠ entry.bytes then
      throw (corrupt artifact "size" s!"{length} bytes, but the index records {entry.bytes}")
    let actual ← Layout.digestFile H entry.digest
    if actual ≠ entry.digest then
      throw (corrupt artifact "digest" s!"{actual}, but the index records {entry.digest}")
    validate H artifact (.readBlob entry.digest) id entry.bytes actual
    return some (blobPath entry.digest)

/-- Publishes what a layer of the chain delivered. -/
def publishReceived (artifact : Artifact) (received : Received α) (layer : Layer)
    (source etag identity : Option String) : Op (List String × ℕ) := do
  let entry := IndexEntry.new received.digest received.bytes (← nowUnix) layer
  let path ← publish H artifact received.tmp
    { entry with source := source, etag := etag, providerIdentity := identity }
  return (path,received.bytes)

def fetchFromMirror (artifact : Artifact) (mirror : Mirror) (budget : Option ℕ) :
    Prog (Except DatastoreError (Option (List String × ℕ)) × Option ℕ) := do
  match ← receive H artifact budget (mirror.fetch H U artifact.key) with
  | (.error e,budget) => return (.error e,budget)
  | (.ok none,budget) => return (.ok none,budget)
  | (.ok (some received),budget) => do
    let result ← (publishReceived H artifact received .mirror
      (some (mirror.location artifact.key)) none none).run
    return (result.map some,budget)

def fetchFromUpstream (artifact : Artifact) (source : Source) (budget : Option ℕ) :
    Prog (Except DatastoreError (List String × ℕ) × Option ℕ) := do
  match ← receive H artifact budget (ds.fetcher.request H U source) with
  | (.error e,budget) => return (.error e,budget)
  | (.ok none,budget) => return (.error (.mirror "HTTP 404 Not Found"),budget)
  | (.ok (some received),budget) => do
    let result ← (publishReceived H artifact received .upstream (some (sanitize U source.url))
      received.info.etag received.info.providerIdentity).run
    return (result,budget)

/-- An error that is returned as itself when there is only one source. -/
def verbatim : DatastoreError → Bool
  | .contentRejected _ _ => true
  | .noCredential _ => true
  | .credentialRejected _ _ _ => true
  | _ => false

/-- Tries the remaining sources in order; `attempts` are the failures so far. -/
def trySources (artifact : Artifact) : List Source → ℕ → Option ℕ → List String →
    Op (List String × ResolveOutcome)
  | [], _, _, attempts => throw (.allSourcesFailed artifact.key attempts)
  | source :: sources, index, budget, attempts => ExceptT.mk do
    match ← ds.fetchFromUpstream H U artifact source budget with
    | (.ok (path,bytes),_) => return .ok (path,⟨.upstream,bytes,some index⟩)
    | (.error e,budget) =>
      if e = .transferLimit then return .error e
      else if verbatim e && artifact.sources.length = 1 then return .error e
      else (trySources artifact sources (index+1) budget
        (attempts ++ [s!"{sanitize U source.url}: {e.display}"])).run

/-- The part of the chain after the mirror, which failed for `reason`. -/
def fetchUpstream (artifact : Artifact) (reason : String) (budget : Option ℕ) :
    Op (List String × ResolveOutcome) :=
  if artifact.sources.isEmpty then
    throw (.manualRequired artifact.key artifact.provenance.description)
  else if !ds.allowUpstream then throw (.mirrorUnreachable artifact.key reason)
  else ds.trySources H U artifact artifact.sources 0 budget []

/-- An error of the mirror that ends the call. -/
def final : DatastoreError → Bool
  | .contentRejected _ _ => true
  | .transferLimit => true
  | _ => false

/-- The part of the chain after the local layer. -/
def fetchChain (artifact : Artifact) (budget : Option ℕ) : Op (List String × ResolveOutcome) :=
  match ds.mirror with
  | none => ds.fetchUpstream H U artifact "no mirror configured" budget
  | some mirror => ExceptT.mk do
    match ← fetchFromMirror H U artifact mirror budget with
    | (.ok (some (path,bytes)),_) => return .ok (path,⟨.mirror,bytes,none⟩)
    | (.ok none,budget) =>
      (ds.fetchUpstream H U artifact s!"{mirror.location artifact.key} has no entry" budget).run
    | (.error e,budget) =>
      if final e then return .error e
      else (ds.fetchUpstream H U artifact e.display budget).run

/-- The hit on the local layer, with its index entry. -/
def lookupLocal (artifact : Artifact) : Op (Option (List String × IndexEntry)) := do
  match ← ds.layout.readEntry artifact.key with
  | none => return none
  | some entry =>
    match ← localHit H artifact entry with
    | none => return none
    | some path => return some (path,entry)

def getWithBudget (artifact : Artifact) (budget : Option ℕ) :
    Op (List String × ResolveOutcome) :=
  Layout.lock H artifact.key do
    match ← ds.lookupLocal H artifact with
    | some (path,entry) =>
      if budget.any (entry.bytes > ·) then throw .transferLimit
      else return (path,⟨.localDisk,entry.bytes,none⟩)
    | none =>
      if ds.offline then throw (.offlineMiss artifact.key)
      else ds.fetchChain H U artifact budget

/-- Resolves to a local path, fetching through the chain if needed. -/
def get (artifact : Artifact) : Op (List String) := do
  return (← ds.getWithBudget H U artifact none).1

def getLimited (artifact : Artifact) (bytes : ℕ) : Op (List String) := do
  return (← ds.getWithBudget H U artifact (some bytes)).1

/-- Seeds the cache from a file already on disk. -/
def importFile (artifact : Artifact) (path : String) : Op (List String) :=
  Layout.lock H artifact.key do
    let reads ← io (.openImport path)
    let producer : Producer (Option Unit) := fun w => do
      match ← copy H readImport reads w with
      | (.error e,w) => return (.error e,w)
      | (.ok (),w) => return (.ok (some ()),w)
    let (received,_) ← receive H artifact none producer
    match ← received with
    | none => throw (.config "a local file is always served")
    | some received =>
      let entry := IndexEntry.new received.digest received.bytes (← nowUnix) .localDisk
      publish H artifact received.tmp { entry with source := some "local:import" }

def remove (key : ArtifactKey) : Op Unit :=
  Layout.lock H key <| Layout.storeLock do
    match ← ds.layout.readEntry key with
    | none => return ()
    | some entry =>
      let _ ← Layout.removeEntry key
      if !(← ds.digestReferenced entry.digest) then Layout.removeBlob entry.digest

/-- The first phase of `gc`: the sizes of the referenced blobs, the others removed. -/
def sweepOrphans (entries : List (ArtifactKey × IndexEntry)) :
    List (String × ℕ) → Op (List (String × ℕ))
  | [] => return []
  | (digest,len) :: rest =>
    if entries.any fun e => e.2.digest = digest then do
      return (digest,len) :: (← sweepOrphans entries rest)
    else do
      Layout.removeBlob digest
      sweepOrphans entries rest

def gcScan : Op (List (ArtifactKey × IndexEntry) × List (String × ℕ)) :=
  Layout.storeLock do
    let entries ← ds.entries
    let sizes ← sweepOrphans entries (← Layout.blobs)
    return (entries,sizes)

/-- Evicts one key of the snapshot if it still has the digest it had then; returns
whether it was removed and the bytes that were freed. -/
def evict (sizes : List (String × ℕ)) (key : ArtifactKey) (snapshot : IndexEntry) :
    Op (Bool × ℕ) :=
  Layout.lock H key <| Layout.storeLock do
    match ← ds.layout.readEntry key with
    | none => return (false,0)
    | some entry =>
      if entry.digest ≠ snapshot.digest then return (false,0)
      else
        let _ ← Layout.removeEntry key
        if !(← ds.digestReferenced entry.digest) then
          Layout.removeBlob entry.digest
          return (true,(sizes.lookup entry.digest).getD 0)
        else return (true,0)

/-- The second phase of `gc`, over the snapshot from the oldest entry on. -/
def gcEvict (maxBytes : ℕ) (sizes : List (String × ℕ)) :
    List (ArtifactKey × IndexEntry) → ℕ → Op (List ArtifactKey)
  | [], _ => return []
  | (key,snapshot) :: rest, total =>
    if total ≤ maxBytes then return []
    else do
      let (removed,freed) ← ds.evict H sizes key snapshot
      let others ← gcEvict maxBytes sizes rest (total-freed)
      return if removed then key :: others else others

/-- Reclaims space: orphan blobs, then the least recently fetched keys. -/
def gc (maxBytes : ℕ) : Op (List ArtifactKey) := do
  let (entries,sizes) ← ds.gcScan
  let oldest := entries.insertionSort fun a b => a.2.fetchedAt ≤ b.2.fetchedAt
  -- the source adds the sizes up in `u64`, unchecked; here the total has no bound
  ds.gcEvict H maxBytes sizes oldest (sizes.map Prod.snd).sum

/-- Unique blob payload bytes, orphans included; a sum past `u64` is an error. -/
def blobBytes : Op ℕ :=
  Layout.storeLock do
    let total := ((← Layout.blobs).map Prod.snd).sum
    if total < 2^64 then return total else throw (.config "cache byte count overflow")

/-- The checks that `verify` makes on one key. -/
def inspect (key : ArtifactKey) (entry : IndexEntry) : Op (Option VerifyFailure) := do
  if !(← isFile entry.digest) then
    return some ⟨key,entry.digest,none,s!"blob {entry.digest} is missing"⟩
  else
    let length ← io (.blobLen entry.digest)
    let actual ← Layout.digestFile H entry.digest
    if actual ≠ entry.digest then
      return some ⟨key,entry.digest,some actual,
        s!"blob hashes to {actual}, index records {entry.digest}"⟩
    else if length ≠ entry.bytes then
      return some ⟨key,entry.digest,some actual,
        s!"blob is {length} bytes, index records {entry.bytes}"⟩
    else return none

def inspectAll : List (ArtifactKey × IndexEntry) → Op (List VerifyFailure)
  | [] => return []
  | (key,entry) :: rest => do
    match ← inspect H key entry with
    | none => inspectAll rest
    | some failure => return failure :: (← inspectAll rest)

/-- Rehashes every blob; the artifact's own check is not run here. -/
def verify : Op (List VerifyFailure) := do
  inspectAll H (← ds.entries)

def keys : Op (List ArtifactKey) := Layout.keys

/-- The path of the blob of a key, if it is there. -/
def peek (key : ArtifactKey) : Prog (Option (List String)) := do
  match ← (ds.layout.readEntry key).run with
  | .ok (some entry) => return if ← isFile entry.digest then some (blobPath entry.digest) else none
  | _ => return none

end Datastore
end StarfieldDatastore
