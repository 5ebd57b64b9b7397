import StarfieldDatastore.World
import Mathlib.Data.List.Sort

/-! The on-disk layout of the cache and the operations on its files. -/
namespace StarfieldDatastore
open Interleaving

/-- Operations that return a `Result`. -/
abbrev Op := ExceptT DatastoreError Prog

def fs (c : FsCall) : Prog (Except IoError c.Out) := .perform (Call.fs c)

def net (c : NetCall) : Prog c.Ret := .perform (Call.net c)

/-- A filesystem step followed by `?`. -/
def io (c : FsCall) : Op c.Out := ExceptT.mk (fs c >>= fun r => .done (r.mapError .io))

/-- `Path::is_file`: an error counts as no. -/
def isFile (digest : String) : Prog Bool :=
  fs (.isBlob digest) >>= fun
    | .ok found => .done found
    | .error _ => .done false

/-- Runs `body` under the lock file `name`; the guard is dropped on every way out. -/
def withLock {α : Type} (name : String) (body : Op α) : Op α := do
  io (.lock name)
  ExceptT.mk do
    let result ← body.run
    let _ ← fs (.unlock name)
    return result

/-- Every key, with its index sidecar at `<root>/index/<key path>.json`. -/
def indexPath (key : ArtifactKey) : String := key.text ++ ".json"

/-- `<root>/blobs/<aa>/<sha256>`, relative to the cache root. -/
def blobPath (digest : String) : List String :=
  ["blobs",String.ofList (digest.toList.take 2),digest]

/-- The content of the file at a blob path. -/
def World.fileAt (w : World) : List String → Option Bytes
  | [dir,shard,name] =>
    if dir = "blobs" ∧ shard = String.ofList (name.toList.take 2) then w.blobs.lookup name else none
  | _ => none

def utf8Bytes (text : String) : Bytes := text.toByteArray.data.toList

/-- The key whose sidecar lies at a path below `index/`, if it names one. -/
def keyOfPath (path : String) : Option ArtifactKey :=
  let text := path.toList
  let suffix := ".json".toList
  if suffix.isSuffixOf text then
    let key := String.ofList (text.take (text.length-suffix.length))
    match ArtifactKey.new (key.map fun c => if c = '\\' then '/' else c) with
    | .ok key => some key
    | .error _ => none
  else none

structure Layout where
  root : String

namespace Layout

def keyLockName (H : Sha256) (key : ArtifactKey) : String := H.hex (utf8Bytes key.text) ++ ".lock"

def storeLockName : String := ".store.lock"

/-- Serialises every operation on one key across processes. -/
def lock {α : Type} (H : Sha256) (key : ArtifactKey) (body : Op α) : Op α :=
  withLock (keyLockName H key) body

/-- Serialises blob publication against reference scans and deletion. -/
def storeLock {α : Type} (body : Op α) : Op α := withLock storeLockName body

def corruptSidecar (layout : Layout) (key : ArtifactKey) (detail : String) : DatastoreError :=
  .io ⟨s!"corrupt index sidecar {layout.root}/index/{indexPath key}: {detail}"⟩

def readEntry (layout : Layout) (key : ArtifactKey) : Op (Option IndexEntry) := do
  match ← io (.readSidecar (indexPath key)) with
  | none => return none
  | some (.malformed detail) => throw (layout.corruptSidecar key detail)
  | some (.parsed entry) =>
    if isDigest entry.digest then return some entry
    else throw (layout.corruptSidecar key "digest is not 64 lowercase hex characters")

def writeEntry (key : ArtifactKey) (entry : IndexEntry) : Op Unit := do
  io (.createIndexDirs (indexPath key))
  io (.stageSidecar (indexPath key))
  io (.persistSidecar (indexPath key) entry)
  io (.syncIndexDir (indexPath key))

def removeEntry (key : ArtifactKey) : Op Bool := io (.unlinkSidecar (indexPath key))

/-- Every key with an index sidecar, in sorted order. -/
def keys : Op (List ArtifactKey) := do
  let paths ← io .listIndex
  return (paths.filterMap keyOfPath).insertionSort fun a b => a.text ≤ b.text

def digestFile (H : Sha256) (digest : String) : Op String := do
  return H.hex (← io (.readBlob digest))

/-- An existing blob is kept if it still hashes to its address; `none` if it does not. -/
def keep (H : Sha256) (tmp : ℕ) (digest : String) : Op (Option (List String)) := ExceptT.mk do
  let actual ← (digestFile H digest).run
  let _ ← fs (.dropTmp tmp)
  return actual.map fun actual => if actual = digest then some (blobPath digest) else none

def moveIntoPlace (tmp : ℕ) (digest : String) : Op Unit := do
  io (.createBlobDir digest)
  io (.syncTmp tmp)
  io (.persistBlob tmp digest)

/-- A temporary file that cannot be moved is dropped with the error. -/
def place (tmp : ℕ) (digest : String) : Op (Option (List String)) := ExceptT.mk do
  match ← (moveIntoPlace tmp digest).run with
  | .error e => do
    let _ ← fs (.dropTmp tmp)
    return .error e
  | .ok () => ExceptT.run do
    io (.syncBlobDir digest)
    return some (blobPath digest)

/-- Moves a temporary file to its address. It is consumed on every way out. -/
def publish (H : Sha256) (tmp : ℕ) (digest : String) : Op (Option (List String)) := ExceptT.mk do
  if ← isFile digest then (keep H tmp digest).run else (place tmp digest).run

/-- Every blob physically present with its length, sorted. -/
def blobs : Op (List (String × ℕ)) := do
  let found ← io .listBlobs
  return (found.filter fun e => isDigest e.1).insertionSort fun a b => a.1 ≤ b.1

def removeBlob (digest : String) : Op Unit := io (.unlinkBlob digest)

end Layout
end StarfieldDatastore
