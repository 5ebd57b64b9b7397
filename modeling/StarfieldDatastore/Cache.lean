import StarfieldDatastore.Store

/-! The server's cold fills: admission, one fill with its guard, and the maintenance that
the last guard runs when it is dropped. -/
namespace StarfieldDatastore
open Interleaving

/-- `u64::checked_add`. -/
def checkedAdd (a b : ℕ) : Option ℕ := if a+b < 2^64 then some (a+b) else none

/-- `+= 1` and `-= 1` on a `usize`. -/
def increment (n : ℕ) : ℕ := (n+1) % 2^64
def decrement (n : ℕ) : ℕ := (n+(2^64-1)) % 2^64

structure ServiceCachePolicy where
  evictOnFetch : Bool
  /-- Quiescent unique-blob budget; zero makes this a staging-only cache. -/
  maxBytes : ℕ
  maxConcurrentFills : ℕ
  /-- Maximum bytes materialised by a fill, including its retries. -/
  maxArtifactBytes : ℕ
  /-- Aggregate reservations, retained until maintenance finishes. -/
  maxInflightBytes : ℕ
  minFreeBytes : ℕ
  usize : maxConcurrentFills < 2^64

/-- Rejects limits that cannot admit a maximum-sized artifact safely. -/
def ServiceCachePolicy.validate (p : ServiceCachePolicy) : Except DatastoreError Unit :=
  if p.maxConcurrentFills = 0 || p.maxArtifactBytes = 0 ||
      p.maxInflightBytes < p.maxArtifactBytes ||
      (checkedAdd p.maxInflightBytes p.minFreeBytes).isNone ||
      (checkedAdd p.maxInflightBytes p.maxBytes).isNone then
    .error (.config "invalid service cache limits")
  else .ok ()

/-- Two fills of at most 16 bytes at a time; nothing is retained. -/
def ServiceCachePolicy.sample : ServiceCachePolicy := ⟨true,0,2,16,32,0,by decide⟩

def cache (c : CacheCall) : Prog c.Ret := .perform (Call.cache c)

/-- A program on a worker thread that can panic before each of its steps and at its end.
Unwinding drops what it holds; `none` is a panic. -/
def interruptible {α : Type} : Prog α → Prog (Option α)
  | .done a => do
    if ← cache .panics then
      cache .unwind
      return none
    else return some a
  | .call c next => do
    if ← cache .panics then
      cache .unwind
      return none
    else .call c fun r => interruptible (next r)

/-- The coordinator. Its state is in the world, behind the mutex; the lock file that it
owns for the lifetime of the service is what keeps other servers away. -/
structure Coordinator where
  store : Datastore
  policy : ServiceCachePolicy

def unavailable (reason : String) : DatastoreError := .fillUnavailable reason

namespace Coordinator
variable (H : Sha256) (U : UrlCrate) (c : Coordinator)

/-- The part of `admitFill` that runs under the state mutex. -/
def admitLocked (limit : ℕ) : Op Unit := do
  let state ← cache .readState
  match state.failed with
  | some reason => throw (unavailable s!"maintenance failed; repair and restart: {reason}")
  | none =>
    if state.maintenance || state.active ≥ c.policy.maxConcurrentFills then
      throw (unavailable "fills draining or concurrency exhausted; retry")
    else
      match (checkedAdd state.reserved limit).filter (· ≤ c.policy.maxInflightBytes) with
      | none => throw (unavailable "staging reservations exhausted; retry")
      | some reserved =>
        match checkedAdd c.policy.minFreeBytes reserved with
        | none => throw (unavailable "filesystem reservation overflow")
        | some required =>
          if (← io .availableSpace) < required then
            throw (unavailable "insufficient unreserved filesystem space")
          else
            cache (.writeState { state with active := increment state.active, reserved := reserved }
              (.admitted limit))

/-- Creates the guard of a fill and returns its limit. -/
def admitFill (expected : Option ℕ) : Op ℕ :=
  let limit := expected.getD c.policy.maxArtifactBytes
  if limit > c.policy.maxArtifactBytes then throw .transferLimit
  else ExceptT.mk do
    if ← cache .tryLockState then
      let result ← (c.admitLocked limit).run
      cache .unlockState
      return result.map fun _ => limit
    else return .error (unavailable "admission busy; retry")

def maintain : Op Unit := do
  let _ ← Datastore.blobBytes
  let _ ← c.store.gc H c.policy.maxBytes
  let after ← Datastore.blobBytes
  if after > c.policy.maxBytes then
    throw (unavailable "retained cache remains above budget")

/-- What `finish` records about the maintenance it ran. -/
def settle (state : CacheState) : Option (Except DatastoreError Unit) → CacheState × CacheNote
  | some (.ok ()) => ({ state with reserved := 0, maintenance := false },.maintained)
  | some (.error error) => ({ state with failed := some error.display },.failed)
  | none => ({ state with failed := some "maintenance panicked" },.failed)

/-- The end of `finish`, with the fill completed: the last one runs the maintenance. -/
def drain (state : CacheState) : Prog Unit := do
  if state.active ≠ 0 then cache .unlockState
  else
    let result ← interruptible (c.maintain H).run
    let (state,note) := settle state result
    cache (.writeState state note)
    cache .unlockState

/-- Drops a guard. Closing admission and completing the fill are one step under the mutex,
which is kept until maintenance has ended. -/
def finish : Prog Unit := do
  cache .lockState
  let state ← cache .readState
  let state := { state with maintenance := true, active := decrement state.active }
  cache (.writeState state .retired)
  c.drain H state

/-- Starts the coordinator; nothing else runs yet. -/
def new (store : Datastore) (policy : ServiceCachePolicy) : Op Coordinator := do
  policy.validate
  let sizes ← io .listTmp
  if sizes.sum ≥ 2^64 then throw (.io ⟨"temporary byte count overflow"⟩)
  let c : Coordinator := ⟨store,policy⟩
  c.maintain H
  return c

end Coordinator

mutual

/-- The part of the check that the mirror's metadata can answer. -/
def checkPins (info : MirrorObject) : ContentCheck → Bool
  | .sha256 pin => pin = info.sha256
  | .all checks => checkAllPins info checks
  | .minBytes n => info.bytes ≥ n
  | _ => true

def checkAllPins (info : MirrorObject) : List ContentCheck → Bool
  | [] => true
  | check :: checks => checkPins info check && checkAllPins info checks

end

def checkMetadata (artifact : Artifact) (info : MirrorObject) : Except DatastoreError Unit :=
  if artifact.expectedBytes.any (· ≠ info.bytes) || !checkPins info artifact.check then
    .error (reject artifact "mirror metadata pin"
      "S3 digest or size disagrees with manifest; run verify --at with explicit repair")
  else .ok ()

/-- The entry of a key, if its blob is there. -/
def Datastore.entry (ds : Datastore) (key : ArtifactKey) : Prog (Option IndexEntry) := do
  match ← (ds.layout.readEntry key).run with
  | .ok (some entry) => return if ← isFile entry.digest then some entry else none
  | _ => return none

namespace Service
variable (H : Sha256) (U : UrlCrate) (c : Coordinator)

def head (artifact : Artifact) : Op (Option MirrorObject) := do
  if artifact.provenance.license.toList.all isWhitespace then
    throw (.manifest s!"{artifact.key.text} needs a license before redistribution")
  else ExceptT.mk (net (.objectHead artifact.key))

/-- Fills the mirror; another fill may have done so while this one waited. -/
def resolveMiss (artifact : Artifact) (limit : ℕ) : Op MirrorObject := do
  match ← ExceptT.mk (net (.objectHead artifact.key)) with
  | some info => return info
  | none =>
    let _ ← c.store.getLimited H U artifact limit
    match ← c.store.entry artifact.key with
    | none => throw (.mirror "local entry disappeared before upload")
    | some entry =>
      let info : MirrorObject :=
        ⟨entry.digest,entry.bytes,none,entry.source,entry.providerIdentity,entry.fetchedAt⟩
      let _ ← ExceptT.mk (net (.objectPut artifact.key entry.digest info))
      return info

def redirect (artifact : Artifact) (info : MirrorObject) : Op (Url × MirrorObject) := do
  checkMetadata artifact info
  return (← ExceptT.mk (net (.objectPresign artifact.key)),info)

/-- The first worker of a request: a hit is redirected at once. -/
def hit (artifact : Artifact) : Op (Option (Url × MirrorObject)) := do
  match ← head artifact with
  | some info => return some (← redirect artifact info)
  | none => return none

/-- The second worker, which runs under a fill guard. -/
def fill (artifact : Artifact) (limit : ℕ) : Op (Url × MirrorObject) := do
  let info ← resolveMiss H U c artifact limit
  redirect artifact info

/-- A miss: admission, the fill, and the drop of its guard on every way out. -/
def coldFill (artifact : Artifact) : Prog (Option (Except DatastoreError (Url × MirrorObject))) := do
  match ← (c.admitFill artifact.expectedBytes).run with
  | .error e => return some (.error e)
  | .ok limit =>
    let result ← interruptible (fill H U c artifact limit).run
    c.finish H
    return result

/-- A request for an artifact, up to its answer; `none` if a worker panicked. -/
def request (artifact : Artifact) : Prog (Option (Except DatastoreError (Url × MirrorObject))) := do
  match ← interruptible (hit artifact).run with
  | none => return none
  | some (.error e) => return some (.error e)
  | some (.ok (some found)) => return some (.ok found)
  | some (.ok none) => coldFill H U c artifact

end Service
end StarfieldDatastore
