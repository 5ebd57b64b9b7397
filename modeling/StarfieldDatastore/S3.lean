import StarfieldDatastore.Fetch
import Mathlib.Data.List.AList
import Mathlib.Logic.Function.Basic

/-! The S3 mirror: its requests, what S3 does at each of them, and the two upload paths. -/
namespace StarfieldDatastore
open Interleaving

abbrev UserMetadata := AList fun _ : String => String

/-- What S3 keeps under a key. `writer` is the caller whose request stored it. -/
structure Version where
  body : Bytes
  metadata : UserMetadata
  etag : String
  writer : Option ThreadId

/-- A multipart upload, which only its creator knows the id of. -/
structure Upload where
  owner : ThreadId
  path : String
  metadata : UserMetadata
  parts : AList fun _ : ℕ => Bytes

structure CompletedPart where
  number : ℕ
  etag : String
  checksum : String
  deriving DecidableEq

/-- The listed parts one after the other. -/
def Upload.assemble (u : Upload) : List CompletedPart → Option Bytes
  | [] => some []
  | part :: rest => do
    let body ← u.parts.lookup part.number
    return body++(← u.assemble rest)

/-- The objects of a bucket, every version that was ever stored under a path (the newest
first), and the uploads in progress. -/
structure Bucket where
  object : String → Option Version
  written : String → List Version
  uploads : AList fun _ : String => Upload

def Bucket.store (b : Bucket) (path : String) (v : Version) : Bucket :=
  { b with object := Function.update b.object path (some v)
           written := Function.update b.written path (v :: b.written path) }

structure HeadOutput where
  metadata : Option UserMetadata
  contentLength : Option ℤ
  etag : Option String

def Version.head (v : Version) : HeadOutput := ⟨some v.metadata,some v.body.length,some v.etag⟩

/-- A failed request: its HTTP status, if there was an answer, and the error code. -/
structure ServiceFailure where
  status : Option ℕ
  code : Option String
  deriving DecidableEq, Repr

/-- The precondition of a write. -/
inductive Condition
  | ifNoneMatch
  | ifMatch (etag : String)
  deriving DecidableEq, Repr

def Condition.Met : Condition → Option Version → Prop
  | .ifNoneMatch, found => found = none
  | .ifMatch etag, found => ∃ v, found = some v ∧ v.etag = etag

/-- Requests to S3 and accesses to the local file of an upload or a download. A body is
read in chunks; the stream can end before they are all there. -/
inductive S3Call
  | file
  | headObject (path : String)
  | getObject (path : String)
  | putObject (path : String) (metadata : UserMetadata) (body : Bytes) (cond : Condition)
  | createUpload (path : String) (metadata : UserMetadata)
  | uploadPart (path id : String) (number : ℕ) (body : Bytes)
  | completeUpload (path id : String) (parts : List CompletedPart) (cond : Condition)
  | abortUpload (path id : String)
  | deleteObject (path : String)

structure GetOutput where
  chunks : List Bytes
  complete : Bool

@[reducible] def S3Call.Ret : S3Call → Type
  | .file => Except IoError Unit
  | .headObject _ => Except ServiceFailure HeadOutput
  | .getObject _ => Except ServiceFailure GetOutput
  | .putObject _ _ _ _ => Except ServiceFailure Unit
  | .createUpload _ _ => Except ServiceFailure (Option String)
  | .uploadPart _ _ _ _ => Except ServiceFailure (Option String × Option String)
  | .completeUpload _ _ _ _ => Except ServiceFailure Unit
  | _ => Unit

/-- No version has had this ETag. -/
def Bucket.Fresh (b : Bucket) (etag : String) : Prop :=
  ∀ path, ∀ v ∈ b.written path, v.etag ≠ etag

/-- A 404 and a 412 say what they mean; any request can fail otherwise. -/
structure ServiceFailure.Honest (f : ServiceFailure) (found : Option Version) (cond : Option Condition) :
    Prop where
  absent : f.status = some 404 → cond = none → found = none
  failed : ∀ c, cond = some c → f.status = some 412 → ¬ c.Met found

/-- What S3 does at a request of caller `t`. A write can be carried out and its answer be
lost; then neither a 409 nor a 412 was sent. -/
inductive S3Call.Does (t : ThreadId) : (c : S3Call) → Bucket → c.Ret → Bucket → Prop
  | file {b r} : Does t .file b r b
  | head {b path v} (found : b.object path = some v) : Does t (.headObject path) b (.ok v.head) b
  | headFails {b path} {f : ServiceFailure} (honest : f.Honest (b.object path) none) :
      Does t (.headObject path) b (.error f) b
  | get {b path v} {output : GetOutput} (found : b.object path = some v)
      (body : output.complete = true → output.chunks.flatten = v.body) :
      Does t (.getObject path) b (.ok output) b
  | getFails {b path} {f : ServiceFailure} (honest : f.Honest (b.object path) none) :
      Does t (.getObject path) b (.error f) b
  | put {b path metadata body cond etag} {r : Except ServiceFailure Unit}
      (met : cond.Met (b.object path)) (fresh : b.Fresh etag)
      (answer : ∀ f, r = .error f → f.status ≠ some 409 ∧ f.status ≠ some 412) :
      Does t (.putObject path metadata body cond) b r (b.store path ⟨body,metadata,etag,some t⟩)
  | putFails {b path metadata body cond} {f : ServiceFailure}
      (honest : f.Honest (b.object path) (some cond)) :
      Does t (.putObject path metadata body cond) b (.error f) b
  | create {b path metadata id} {r : Except ServiceFailure (Option String)}
      (fresh : b.uploads.lookup id = none) (answer : ∀ out, r = .ok out → out = some id) :
      Does t (.createUpload path metadata) b r
        { b with uploads := b.uploads.insert id ⟨t,path,metadata,∅⟩ }
  | createFails {b path metadata} {r : Except ServiceFailure (Option String)}
      (answer : ∀ id, r ≠ .ok (some id)) : Does t (.createUpload path metadata) b r b
  | part {b path id number body} {u : Upload} {r : Except ServiceFailure (Option String × Option String)}
      (found : b.uploads.lookup id = some u) (own : u.owner = t) (same : u.path = path) :
      Does t (.uploadPart path id number body) b r
        { b with uploads := b.uploads.insert id { u with parts := u.parts.insert number body } }
  | partFails {b path id number body} {f : ServiceFailure} :
      Does t (.uploadPart path id number body) b (.error f) b
  | complete {b path id parts cond etag body} {u : Upload} {r : Except ServiceFailure Unit}
      (found : b.uploads.lookup id = some u) (own : u.owner = t) (same : u.path = path)
      (whole : u.assemble parts = some body) (met : cond.Met (b.object path)) (fresh : b.Fresh etag)
      (answer : ∀ f, r = .error f → f.status ≠ some 409 ∧ f.status ≠ some 412) :
      Does t (.completeUpload path id parts cond) b r
        { b.store path ⟨body,u.metadata,etag,some t⟩ with uploads := b.uploads.erase id }
  | completeFails {b path id parts cond} {f : ServiceFailure}
      (honest : f.Honest (b.object path) (some cond)) :
      Does t (.completeUpload path id parts cond) b (.error f) b
  | abort {b path id} {u : Upload} (found : b.uploads.lookup id = some u) (own : u.owner = t) :
      Does t (.abortUpload path id) b () { b with uploads := b.uploads.erase id }
  | abortFails {b path id} : Does t (.abortUpload path id) b () b
  | delete {b path} : Does t (.deleteObject path) b ()
      { b with object := Function.update b.object path none }

abbrev S3Op (α : Type) := ExceptT DatastoreError (Program S3Call S3Call.Ret) α

def s3 (c : S3Call) : Program S3Call S3Call.Ret c.Ret := .perform c

/-- One access to the local file. -/
def file : S3Op Unit := ExceptT.mk do
  return (← s3 .file).mapError .io

def mirrorError (message : String) : DatastoreError := .mirror message

def validateMetadataDigest (digest : String) : Except DatastoreError Unit :=
  if isDigest digest then .ok () else .error (mirrorError "invalid SHA-256 metadata")

/-- `str::parse::<u64>`. -/
def parseU64 (text : String) : Option ℕ :=
  let digits := if text.toList.head? = some '+' then text.toList.tail else text.toList
  if digits.isEmpty || !digits.all Char.isDigit then none
  else
    let n := Nat.ofDigitChars 10 digits 0
    if n < 2^64 then some n else none

/-- `u64::try_from` of an `i64`. -/
def u64TryFrom (n : ℤ) : Option ℕ := if 0 ≤ n then some n.toNat else none

/-- Reads the application metadata of an object. -/
def mirrorObject (output : HeadOutput) : Except DatastoreError MirrorObject := do
  let metadata := output.metadata.getD ∅
  match output.contentLength.bind u64TryFrom with
  | none => throw (mirrorError "S3 object has no valid content length")
  | some bytes =>
    match metadata.lookup "sha256" with
    | none => throw (mirrorError "S3 object has no SHA-256 metadata")
    | some sha256 =>
      validateMetadataDigest sha256
      if (metadata.lookup "bytes").bind parseU64 ≠ some bytes then
        throw (mirrorError "S3 object size metadata disagrees with content length")
      else
        return ⟨sha256,bytes,output.etag,metadata.lookup "source",metadata.lookup "provider-identity",
          ((metadata.lookup "fetched-at").bind parseU64).getD 0⟩

def matchingExisting (existing proposed : MirrorObject) : Except DatastoreError PutOutcome :=
  if existing.sha256 = proposed.sha256 ∧ existing.bytes = proposed.bytes then .ok .alreadyPresent
  else .error (mirrorError "immutable S3 key already contains different content")

/-- The source of an upload without query and fragment. -/
def sourceMetadata (U : UrlCrate) (values : UserMetadata) : Option String →
    Except DatastoreError UserMetadata
  | none => .ok values
  | some source =>
    match U.parse source with
    | .error _ => .error (mirrorError "invalid source metadata")
    | .ok url =>
      if url.username ≠ "" || url.password.isSome then
        .error (mirrorError "source metadata contains embedded credentials")
      else if url.scheme = "http" || url.scheme = "https" then
        .ok (values.insert "source" (U.asStr { url with query := none, fragment := none }))
      else .ok values

def uploadMetadata (U : UrlCrate) (info : MirrorObject) : Except DatastoreError UserMetadata := do
  let values : UserMetadata := ((AList.insert "fetched-at" (toString info.fetchedAt) ∅).insert
    "bytes" (toString info.bytes)).insert "sha256" info.sha256
  let values ← sourceMetadata U values info.source
  match info.providerIdentity with
  | none => return values
  | some identity => return values.insert "provider-identity" identity

def partBytes : ℕ := 64*1024*1024

/-- A bucket with a key prefix. -/
structure S3Mirror where
  bucket : String
  pre : String

namespace S3Mirror
variable (H : Sha256) (U : UrlCrate) (m : S3Mirror) (key : ArtifactKey)

def path : String := key.mirrorPath m.pre

def failure (operation : String) (f : ServiceFailure) : DatastoreError :=
  serviceError m.bucket m.pre key operation f.code

def head : S3Op (Option MirrorObject) := ExceptT.mk do
  match ← s3 (.headObject (m.path key)) with
  | .ok output => return (mirrorObject output).map some
  | .error f => return if f.status = some 404 then .ok none else .error (m.failure key "HEAD" f)

/-- The precondition of a repair, even when the application metadata is damaged. -/
def observedEtag : S3Op (Option String) := ExceptT.mk do
  match ← s3 (.headObject (m.path key)) with
  | .ok output =>
    match output.etag with
    | some etag => return .ok (some etag)
    | none => return .error (mirrorError "existing S3 object has no ETag for conditional repair")
  | .error f =>
    return if f.status = some 404 then .ok none else .error (m.failure key "HEAD repair precondition" f)

/-- Writes the chunks of a body into the caller's file. -/
def sink : List Bytes → S3Op Unit
  | [] => return ()
  | _ :: rest => do
    file
    sink rest

/-- Streams the object into a file, which then has the content that is returned; `none`
when there is no object. -/
def fetch : S3Op (Option Bytes) := do
  match ← s3 (.getObject (m.path key)) with
  | .error f => if f.status = some 404 then return none else throw (m.failure key "GET" f)
  | .ok output =>
    sink output.chunks
    if output.complete then return some output.chunks.flatten
    else throw (mirrorError "S3 body stream failed")

def existingAfterRace (info : MirrorObject) : S3Op PutOutcome := do
  match ← m.head key with
  | none => throw (mirrorError "conditional write raced with deletion; retry the operation")
  | some existing => matchingExisting existing info

def condition : Option String → Condition
  | none => .ifNoneMatch
  | some etag => .ifMatch etag

/-- A PUT, with what to do after a conflict if there is an attempt left. -/
def putRequest (blob : Bytes) (info : MirrorObject) (metadata : UserMetadata) (expected : Option String)
    (again : Option (S3Op PutOutcome)) : S3Op PutOutcome := do
  match ← s3 .file with
  | .error _ => throw (mirrorError "cannot open upload body")
  | .ok () =>
    match ← s3 (.putObject (m.path key) metadata blob (condition expected)) with
    | .ok () => return .stored
    | .error f =>
      if f.status = some 412 ∧ expected = none then m.existingAfterRace key info
      else if f.status = some 409 then again.getD (throw (m.failure key "PUT" f))
      else throw (m.failure key "PUT" f)

def putObject (blob : Bytes) (info : MirrorObject) (metadata : UserMetadata) (expected : Option String) :
    ℕ → S3Op PutOutcome
  | 0 => m.putRequest key blob info metadata expected none
  | left+1 => m.putRequest key blob info metadata expected
      (some (putObject blob info metadata expected left))

def partSize (bytes : ℕ) : ℕ := max partBytes ((bytes+9999)/10000)

/-- Uploads the parts from `offset` on. Every part is nonempty, so the length of the body
is enough fuel. -/
def uploadParts (blob : Bytes) (bytes : ℕ) (id : String) :
    ℕ → ℕ → List CompletedPart → S3Op (List CompletedPart)
  | 0, _, parts => return parts
  | fuel+1, offset, parts =>
    if offset < bytes then do
      let length := min (partSize bytes) (bytes-offset)
      match ← s3 .file with
      | .error _ => throw (mirrorError "cannot read multipart body")
      | .ok () =>
        let number := parts.length+1
        if number ≥ 2^31 then throw (mirrorError "too many upload parts")
        else
          match ← s3 (.uploadPart (m.path key) id number ((blob.drop offset).take length)) with
          | .error f => throw (m.failure key "UploadPart" f)
          | .ok (none,_) => throw (mirrorError "upload part has no ETag")
          | .ok (some _,none) => throw (mirrorError "upload part has no CRC32 checksum")
          | .ok (some etag,some checksum) =>
            uploadParts blob bytes id fuel (offset+length) (parts++[⟨number,etag,checksum⟩])
    else return parts

def uploadAll (blob : Bytes) (info : MirrorObject) (id : String) (expected : Option String) :
    S3Op PutOutcome := do
  let parts ← m.uploadParts key blob info.bytes id info.bytes 0 []
  match ← s3 (.completeUpload (m.path key) id parts (condition expected)) with
  | .ok () => return .stored
  | .error f =>
    if f.status = some 412 ∧ expected = none then m.existingAfterRace key info
    else throw (m.failure key "CompleteMultipartUpload" f)

/-- Memory stays bounded and the completion carries the precondition. -/
def multipart (blob : Bytes) (info : MirrorObject) (metadata : UserMetadata) (expected : Option String) :
    S3Op PutOutcome := do
  match ← s3 (.createUpload (m.path key) metadata) with
  | .error f => throw (m.failure key "CreateMultipartUpload" f)
  | .ok none => throw (mirrorError "S3 returned no upload id")
  | .ok (some id) => ExceptT.mk do
    let result ← (m.uploadAll key blob info id expected).run
    match result with
    | .ok .stored => return result
    | _ =>
      s3 (.abortUpload (m.path key) id)
      return result

/-- The local file has the length and the digest that are proposed. -/
def localMatches (blob : Bytes) (info : MirrorObject) : S3Op Bool := do
  file
  if blob.length ≠ info.bytes then return false
  else
    file
    return H.hex blob = info.sha256

def write (blob : Bytes) (info : MirrorObject) (expected : Option String) : S3Op PutOutcome := do
  validateMetadataDigest info.sha256
  if !(← localMatches H blob info) then
    throw (mirrorError "local blob does not match upload digest and size")
  else
    let metadata ← uploadMetadata U info
    match ← (if expected = none then m.head key else pure none) with
    | some existing => matchingExisting existing info
    | none =>
      if info.bytes > partBytes then m.multipart key blob info metadata expected
      else m.putObject key blob info metadata expected 2

/-- Publishes a validated local blob. Existing content is accepted only when its digest
and length agree with this upload. -/
def put (blob : Bytes) (info : MirrorObject) : S3Op PutOutcome := m.write H U key blob info none

/-- Explicit repair, conditional on the ETag observed by the verifier. -/
def replace (blob : Bytes) (info : MirrorObject) (expected : String) : S3Op PutOutcome :=
  if expected = "" then throw (mirrorError "repair requires an observed ETag")
  else m.write H U key blob info (some expected)

end S3Mirror
end StarfieldDatastore
