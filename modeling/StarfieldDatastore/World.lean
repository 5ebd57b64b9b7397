import StarfieldDatastore.Artifact
import StarfieldDatastore.Interleaving.Program
import Mathlib.Data.List.AList

/-! The shared world of the store: one cache root, the cache coordinator's memory and
the network, with the single steps that programs take on them. -/
namespace StarfieldDatastore
open Interleaving

/-- One operation in flight: a process or thread for as long as it runs it. -/
abbrev ThreadId := ℕ

inductive Layer
  | localDisk
  | mirror
  | upstream
  deriving DecidableEq, Repr

/-- The index sidecar for one key. -/
structure IndexEntry where
  digest : String
  bytes : ℕ
  fetchedAt : ℕ
  source : Option String
  etag : Option String
  providerIdentity : Option String
  layer : Layer
  deriving DecidableEq, Repr

/-- What `serde_json` makes of the text of a sidecar file. -/
inductive Sidecar
  | parsed (entry : IndexEntry)
  | malformed (detail : String)
  deriving DecidableEq, Repr

/-- An in-flight download, with the thread that has it open. -/
structure TmpFile where
  owner : ThreadId
  content : Bytes
  deriving DecidableEq, Repr

/-- The fields behind the coordinator's state mutex. -/
structure CacheState where
  active : ℕ
  reserved : ℕ
  maintenance : Bool
  failed : Option String
  deriving DecidableEq, Repr

def CacheState.default : CacheState := ⟨0,0,false,none⟩

/-- One cache root and the memory of its coordinator.

`blobs` are keyed by file name, each at its own address; `index` holds the files under
`index/` by relative path, `dirs` the directories there. `guards` are the live fill
guards with their limits, `admitted` those created since the last successful
maintenance, and `written` counts the bytes each thread has appended under `tmp/`. -/
structure World where
  blobs : AList fun _ : String => Bytes
  index : AList fun _ : String => Sidecar
  dirs : String → Bool
  tmp : AList fun _ : ℕ => TmpFile
  locks : String → Option ThreadId
  cache : CacheState
  mutex : Option ThreadId
  guards : AList fun _ : ThreadId => ℕ
  admitted : List (ThreadId × ℕ)
  written : ThreadId → ℕ

/-- An empty cache root that nobody works on. -/
def World.fresh : World :=
  ⟨∅,∅,fun _ => false,∅,fun _ => none,.default,none,∅,[],fun _ => 0⟩

/-- The same with the content `abc` in it, under the key `abc`. -/
def World.cached : World :=
  let body : Bytes := [0x61,0x62,0x63]
  let digest := Sha256.sample.hex body
  { World.fresh with
    blobs := AList.insert digest body ∅
    index := AList.insert "abc.json" (.parsed ⟨digest,3,0,none,none,none,.localDisk⟩) ∅ }

/-- Two keys of one age that share the content `abc`, and a later one with the content `def`. -/
def World.shared : World :=
  let digest := Sha256.sample.hex [0x61,0x62,0x63]
  let later := "cb8379ac2098aa165029e3938a51da0bcecfc008fd6795f401178647f96c5b34"
  { World.fresh with
    blobs := (AList.insert digest [0x61,0x62,0x63] ∅).insert later [0x64,0x65,0x66]
    index := ((AList.insert "abc.json" (.parsed ⟨digest,3,1,none,none,none,.localDisk⟩) ∅).insert "abd.json"
      (.parsed ⟨digest,3,1,none,none,none,.localDisk⟩)).insert "def.json"
        (.parsed ⟨later,3,2,none,none,none,.localDisk⟩) }

/-- Two keys that share one content, of which nothing is left. -/
def World.damaged : World :=
  let digest := Sha256.sample.hex [0x61,0x62,0x63]
  { World.fresh with
    blobs := AList.insert digest [] ∅
    index := (AList.insert "abc.json" (.parsed ⟨digest,3,1,none,none,none,.localDisk⟩) ∅).insert "abd.json"
      (.parsed ⟨digest,3,1,none,none,none,.localDisk⟩) }

/-- A parsed URL, as far as the code looks at it. -/
structure Url where
  scheme : String
  username : String
  password : Option String
  host : Option String
  port : Option ℕ
  path : String
  query : Option String
  fragment : Option String
  deriving DecidableEq, Repr

inductive Credential
  | basic (user secret : String)
  | bearer (secret : String) (expiresAt : Option ℕ)
  deriving DecidableEq, Repr

/-- The head of an HTTP response. `reads` is how often its body is read before the
connection ends; what each read brings is decided when it happens. -/
structure Response where
  status : ℕ
  location : Option String
  etag : Option String
  reads : ℕ
  deriving DecidableEq, Repr

/-- An object of the mirror with its application metadata. -/
structure MirrorObject where
  sha256 : String
  bytes : ℕ
  etag : Option String
  source : Option String
  providerIdentity : Option String
  fetchedAt : ℕ
  deriving DecidableEq, Repr

inductive PutOutcome
  | stored
  | alreadyPresent
  deriving DecidableEq, Repr

/-- Single filesystem steps below one cache root, and the clock. -/
inductive FsCall
  | lock (name : String)
  | unlock (name : String)
  | readSidecar (path : String)
  | listIndex
  | createIndexDirs (path : String)
  | stageSidecar (path : String)
  | persistSidecar (path : String) (entry : IndexEntry)
  | syncIndexDir (path : String)
  | unlinkSidecar (path : String)
  | isBlob (digest : String)
  | blobLen (digest : String)
  | readBlob (digest : String)
  | listBlobs
  | createBlobDir (digest : String)
  | persistBlob (tmp : ℕ) (digest : String)
  | syncBlobDir (digest : String)
  | unlinkBlob (digest : String)
  | createTmp
  | appendTmp (tmp : ℕ) (buf : Bytes)
  | readTmp (tmp : ℕ)
  | syncTmp (tmp : ℕ)
  | dropTmp (tmp : ℕ)
  | listTmp
  | openImport (path : String)
  | readImport
  | now
  | availableSpace
  deriving DecidableEq

/-- What a filesystem step returns when it succeeds. Importing announces how often the
file is read; an empty chunk is its end. -/
@[reducible] def FsCall.Out : FsCall → Type
  | .readSidecar _ => Option Sidecar
  | .listIndex => List String
  | .unlinkSidecar _ => Bool
  | .isBlob _ => Bool
  | .blobLen _ => ℕ
  | .readBlob _ => Bytes
  | .listBlobs => List (String × ℕ)
  | .createTmp => ℕ
  | .readTmp _ => Bytes
  | .listTmp => List ℕ
  | .openImport _ => ℕ
  | .readImport => Bytes
  | .now => ℕ
  | .availableSpace => ℕ
  | _ => Unit

/-- Requests on the network and reads of a response body. `object…` are the operations
of the service's object store. -/
inductive NetCall
  | send (url : Url) (credential : Option Credential)
  | readBody
  | s3Get (path : String)
  | s3Read
  | systemNow
  | objectHead (key : ArtifactKey)
  | objectPut (key : ArtifactKey) (digest : String) (info : MirrorObject)
  | objectPresign (key : ArtifactKey)
  deriving DecidableEq

@[reducible] def NetCall.Ret : NetCall → Type
  | .send _ _ => Except Unit Response
  | .readBody => Except IoError Bytes
  | .s3Get _ => Except (Option String) (Option ℕ)
  | .s3Read => Except Unit (Option Bytes)
  | .systemNow => ℕ
  | .objectHead _ => Except DatastoreError (Option MirrorObject)
  | .objectPut _ _ _ => Except DatastoreError PutOutcome
  | .objectPresign _ => Except DatastoreError Url

/-- Why the coordinator's state is written. -/
inductive CacheNote
  | admitted (limit : ℕ)
  | retired
  | maintained
  | failed
  deriving DecidableEq

/-- Steps on the coordinator's memory. `panics` asks whether the worker panics here and
`unwind` is what unwinding drops: the thread's locks and temporary files. -/
inductive CacheCall
  | tryLockState
  | lockState
  | unlockState
  | readState
  | writeState (state : CacheState) (note : CacheNote)
  | panics
  | unwind
  deriving DecidableEq

@[reducible] def CacheCall.Ret : CacheCall → Type
  | .tryLockState => Bool
  | .readState => CacheState
  | .panics => Bool
  | _ => Unit

inductive Call
  | fs (c : FsCall)
  | net (c : NetCall)
  | cache (c : CacheCall)
  deriving DecidableEq

@[reducible] def Call.Ret : Call → Type
  | .fs c => Except IoError c.Out
  | .net c => c.Ret
  | .cache c => c.Ret

abbrev Prog := Program Call Call.Ret

/-- What a step leaves to the environment: a name, a clock reading, the bytes that
arrive. Every reply of the network is the environment's choice. -/
@[reducible] def FsCall.Choice : FsCall → Type
  | .createTmp => ℕ
  | .openImport _ => ℕ
  | .readImport => Bytes
  | .now => ℕ
  | .availableSpace => ℕ
  | _ => Unit

@[reducible] def CacheCall.Choice : CacheCall → Type
  | .panics => Bool
  | _ => Unit

@[reducible] def Call.Choice : Call → Type
  | .fs c => c.Choice
  | .net c => c.Ret
  | .cache c => c.Choice

namespace World

/-- `dir` is a proper ancestor of `path`. -/
def isAncestor (dir path : String) : Bool := (dir.toList ++ ['/']).isPrefixOf path.toList

/-- `dir` is the directory that `path` lies in. -/
def isParent (dir path : String) : Bool :=
  isAncestor dir path && !(path.toList.drop (dir.toList.length+1)).contains '/'

/-- Some ancestor of `path` is a file, so nothing can be found or created there. -/
def blocked (w : World) (path : String) : Bool := w.index.keys.any fun file => isAncestor file path

def setLock (w : World) (name : String) (o : Option ThreadId) : World :=
  { w with locks := Function.update w.locks name o }

def notFound : IoError := ⟨"No such file or directory (os error 2)"⟩
def notDirectory : IoError := ⟨"Not a directory (os error 20)"⟩
def fileExists : IoError := ⟨"File exists (os error 17)"⟩
def isDirectory : IoError := ⟨"Is a directory (os error 21)"⟩

/-- Appends to a temporary file, counting what was written. -/
def append (w : World) (t : ThreadId) (tmp : ℕ) (file : TmpFile) (buf : Bytes) : World :=
  { w with
    tmp := w.tmp.insert tmp { file with content := file.content++buf }
    written := Function.update w.written t (w.written t+buf.length) }

/-- One filesystem step of thread `t`; `none` when it has to wait. -/
def runFs (t : ThreadId) (w : World) :
    (c : FsCall) → c.Choice → Option (Except IoError c.Out × World)
  | .lock name, _ => if w.locks name = none then some (.ok (),w.setLock name (some t)) else none
  | .unlock name, _ =>
    some (.ok (),if w.locks name = some t then w.setLock name none else w)
  | .readSidecar path, _ =>
    match w.index.lookup path with
    | some sidecar => some (.ok (some sidecar),w)
    | none =>
      if w.dirs path then some (.error isDirectory,w)
      else if w.blocked path then some (.error notDirectory,w)
      else some (.ok none,w)
  | .listIndex, _ => some (.ok w.index.keys,w)
  | .createIndexDirs path, _ =>
    if w.index.keys.any fun file => isParent file path then some (.error fileExists,w)
    else if w.blocked path then some (.error notDirectory,w)
    else some (.ok (),{ w with dirs := fun dir => w.dirs dir || isAncestor dir path })
  | .stageSidecar _, _ => some (.ok (),w)
  | .persistSidecar path entry, _ =>
    if w.dirs path then some (.error isDirectory,w)
    else some (.ok (),{ w with index := w.index.insert path (.parsed entry) })
  | .syncIndexDir _, _ => some (.ok (),w)
  | .unlinkSidecar path, _ =>
    match w.index.lookup path with
    | some _ => some (.ok true,{ w with index := w.index.erase path })
    | none =>
      if w.dirs path then some (.error isDirectory,w)
      else if w.blocked path then some (.error notDirectory,w)
      else some (.ok false,w)
  | .isBlob digest, _ => some (.ok (w.blobs.lookup digest).isSome,w)
  | .blobLen digest, _ =>
    match w.blobs.lookup digest with
    | some content => some (.ok content.length,w)
    | none => some (.error notFound,w)
  | .readBlob digest, _ =>
    match w.blobs.lookup digest with
    | some content => some (.ok content,w)
    | none => some (.error notFound,w)
  | .listBlobs, _ => some (.ok (w.blobs.entries.map fun e => (e.1,e.2.length)),w)
  | .createBlobDir _, _ => some (.ok (),w)
  | .persistBlob tmp digest, _ =>
    match w.tmp.lookup tmp with
    | some file =>
      some (.ok (),{ w with blobs := w.blobs.insert digest file.content, tmp := w.tmp.erase tmp })
    | none => some (.error notFound,w)
  | .syncBlobDir _, _ => some (.ok (),w)
  | .unlinkBlob digest, _ => some (.ok (),{ w with blobs := w.blobs.erase digest })
  | .createTmp, tmp =>
    if w.tmp.lookup tmp = none then some (.ok tmp,{ w with tmp := w.tmp.insert tmp ⟨t,[]⟩ })
    else none
  | .appendTmp tmp buf, _ =>
    match w.tmp.lookup tmp with
    | some file => some (.ok (),w.append t tmp file buf)
    | none => some (.error notFound,w)
  | .readTmp tmp, _ =>
    match w.tmp.lookup tmp with
    | some file => some (.ok file.content,w)
    | none => some (.error notFound,w)
  | .syncTmp _, _ => some (.ok (),w)
  | .dropTmp tmp, _ => some (.ok (),{ w with tmp := w.tmp.erase tmp })
  | .listTmp, _ => some (.ok (w.tmp.entries.map fun e => e.2.content.length),w)
  | .openImport _, reads => some (.ok reads,w)
  | .readImport, chunk => some (.ok chunk,w)
  | .now, time => some (.ok time,w)
  | .availableSpace, space => some (.ok space,w)

/-- A call that the system refuses changed nothing. -/
theorem runFs_error {t : ThreadId} {w w' : World} {c : FsCall} {x : c.Choice} {e : IoError}
    (h : w.runFs t c x = some (.error e,w')) : w' = w := by
  cases c <;> simp only [runFs] at h <;> repeat' split at h
  all_goals simp_all

/-- What unwinding or the end of a process releases. -/
def release (t : ThreadId) (w : World) : World :=
  { w with locks := fun name => if w.locks name = some t then none else w.locks name }

/-- The temporary files of a thread are removed when it drops them. -/
def dropOwned (t : ThreadId) (w : World) : World :=
  { w with
    tmp := ⟨w.tmp.entries.filter fun e => e.2.owner ≠ t,w.tmp.nodupKeys.sublist List.filter_sublist⟩ }

def note (t : ThreadId) (w : World) : CacheNote → World
  | .admitted limit =>
    { w with guards := w.guards.insert t limit, admitted := (t,limit) :: w.admitted }
  | .retired => { w with guards := w.guards.erase t }
  | .maintained => { w with admitted := [] }
  | .failed => w

/-- One step of thread `t` on the coordinator's memory. -/
def runCache (t : ThreadId) (w : World) : (c : CacheCall) → c.Choice → Option (c.Ret × World)
  | .tryLockState, _ =>
    if w.mutex = none then some (true,{ w with mutex := some t }) else some (false,w)
  | .lockState, _ => if w.mutex = none then some ((),{ w with mutex := some t }) else none
  | .unlockState, _ => some ((),if w.mutex = some t then { w with mutex := none } else w)
  | .readState, _ => some (w.cache,w)
  | .writeState state reason, _ => some ((),{ w.note t reason with cache := state })
  | .panics, choice => some (choice,w)
  | .unwind, _ => some ((),(w.dropOwned t).release t)

/-- One step of thread `t` as the system performs it when no fault occurs. -/
def exec (t : ThreadId) (w : World) : (c : Call) → c.Choice → Option (c.Ret × World)
  | .fs c, x => w.runFs t c x
  | .net _, r => some (r,w)
  | .cache c, x => w.runCache t c x

end World

/-- A step that meets no fault. -/
def Call.Works (t : ThreadId) (c : Call) (w : World) (r : c.Ret) (w' : World) : Prop :=
  ∃ x, w.exec t c x = some (r,w')

instance (c : FsCall) : Inhabited c.Choice := by cases c <;> exact ⟨default⟩
instance (c : CacheCall) : Inhabited c.Choice := by cases c <;> exact ⟨default⟩

/-- The choices of an environment with room and without panics: every host serves this body in one
piece, and the mirror has nothing yet. -/
def Call.served (body : Bytes) (w : World) : (c : Call) → c.Choice
  | .fs .availableSpace => 2^63
  | .fs _ => default
  | .net (.send _ _) => .ok ⟨200,none,none,2⟩
  | .net .readBody => .ok (if w.tmp.entries.any fun e => e.2.content ≠ [] then [] else body)
  | .net (.s3Get _) => .ok none
  | .net .s3Read => .ok none
  | .net .systemNow => 0
  | .net (.objectHead _) => .ok none
  | .net (.objectPut _ _ _) => .ok .stored
  | .net (.objectPresign _) => .ok ⟨"https","",none,some "a.com",none,"/",none,none⟩
  | .cache _ => default

/-- One step of thread 0 among these choices. -/
def World.serve (body : Bytes) (c : Call) (w : World) : Option (c.Ret × World) := w.exec 0 c (c.served body w)

theorem serve_works (body : Bytes) (c : Call) (w : World) (r : c.Ret) (w' : World)
    (h : w.serve body c = some (r,w')) : c.Works 0 w r w' := ⟨_,h⟩

/-- A filesystem step can fail. It then changes nothing, except that a failed append may
have written a prefix. -/
inductive Call.Faults (t : ThreadId) : (c : Call) → World → c.Ret → World → Prop
  | fs (c w e) : Faults t (.fs c) w (.error e) w
  | append {tmp buf w file} (e n) (h : w.tmp.lookup tmp = some file) :
      Faults t (.fs (.appendTmp tmp buf)) w (.error e) (w.append t tmp file (buf.take n))

/-- A step with or without a fault. -/
def Call.Does (t : ThreadId) (c : Call) (w : World) (r : c.Ret) (w' : World) : Prop :=
  c.Works t w r w' ∨ c.Faults t w r w'

end StarfieldDatastore
