import StarfieldDatastore.Check

/-! Artifacts, their keys and the errors of the store. -/
namespace StarfieldDatastore

/-- The acceptance test of `ArtifactKey::new`: nonempty safe path components. -/
def validKey (key : String) : Bool :=
  !(key.toList.isEmpty || key.utf8ByteSize > 1024 ||
    (key.toList.splitOn '/').any fun part =>
      part.isEmpty || part == ['.'] || part == ['.','.'] ||
        (String.ofList part).utf8ByteSize > 240) &&
    key.toList.all fun c => c.isAlphanum || "-._/".toList.contains c

/-- A stable, slash-separated logical identity; an unsafe key cannot be built. -/
structure ArtifactKey where
  text : String
  valid : validKey text = true
  deriving DecidableEq

/-- The text of an `io::Error`. -/
structure IoError where
  text : String
  deriving DecidableEq, Repr

inductive DatastoreError
  | noCredential (host : String)
  | credentialRejected (host : String) (status : ℕ) (looksExpired : Bool)
  | contentRejected (key : ArtifactKey) (failure : CheckFailure)
  | offlineMiss (key : ArtifactKey)
  | mirrorUnreachable (key : ArtifactKey) (reason : String)
  | manualRequired (key : ArtifactKey) (instructions : String)
  | allSourcesFailed (key : ArtifactKey) (attempts : List String)
  | invalidKey (message : String)
  | mirror (message : String)
  | config (message : String)
  | fillUnavailable (message : String)
  | transferLimit
  | manifest (message : String)
  | io (error : IoError)
  | http
  deriving DecidableEq

namespace DatastoreError

/-- The `Display` text. The wrapped HTTP error carries no URL and is not shown. -/
def display : DatastoreError → String
  | .noCredential host => s!"no credential configured for host {host}"
  | .credentialRejected host status looksExpired =>
    s!"credential rejected by {host} (HTTP {status})" ++
      if looksExpired then "; it looks expired" else ""
  | .contentRejected key failure =>
    s!"content rejected for {key.text}: failed {failure.check}; got {failure.got}"
  | .offlineMiss key => s!"offline, and {key.text} is not in the local cache"
  | .mirrorUnreachable key reason =>
    s!"{key.text} is not cached and the mirror is unreachable ({reason}); " ++
      "set STARFIELD_ALLOW_UPSTREAM=1 to fetch from the archive"
  | .manualRequired key instructions =>
    s!"{key.text} is not cached and has no sources; obtain it manually: {instructions}"
  | .allSourcesFailed key attempts =>
    s!"all {attempts.length} sources failed for {key.text}: " ++ "; ".intercalate attempts
  | .invalidKey message => s!"invalid artifact key: {message}"
  | .mirror message => s!"mirror error: {message}"
  | .config message => s!"configuration error: {message}"
  | .fillUnavailable message => s!"cold fill unavailable: {message}"
  | .transferLimit => "artifact transfer exceeds the reserved fill byte limit"
  | .manifest message => s!"manifest error: {message}"
  | .io error => error.text
  | .http => "HTTP request failed"

end DatastoreError

def ArtifactKey.new (key : String) : Except DatastoreError ArtifactKey :=
  if h : validKey key = true then .ok ⟨key,h⟩
  else .error (.invalidKey "expected nonempty safe path components")

@[simp] theorem ArtifactKey.new_text (key : ArtifactKey) : ArtifactKey.new key.text = .ok key := by
  simp [ArtifactKey.new,key.valid]

/-- `str::trim_matches` for one character. -/
def trimMatches (c : Char) (text : List Char) : List Char :=
  ((text.dropWhile (· == c)).reverse.dropWhile (· == c)).reverse

def ArtifactKey.mirrorPath (key : ArtifactKey) (pre : String) : String :=
  let pre := trimMatches '/' pre.toList
  if pre.isEmpty then key.text else String.ofList pre ++ "/" ++ key.text

structure Source where
  url : String
  trustRedirects : Bool
  deriving DecidableEq, Repr

def Source.new (url : String) : Source := ⟨url,false⟩

structure Provenance where
  description : String
  license : String
  citation : Option String
  deriving DecidableEq, Repr

inductive Freshness
  | immutable
  deriving DecidableEq, Repr

structure Artifact where
  key : ArtifactKey
  sources : List Source
  check : ContentCheck
  freshness : Freshness
  provenance : Provenance
  expectedBytes : Option ℕ

/-- The content `abc` under the key `abc`. -/
def Artifact.sample : Artifact where
  key := ⟨"abc",by decide⟩
  sources := []
  check := .all [.minBytes 1,.sha256 (Sha256.sample.hex [0x61,0x62,0x63])]
  freshness := .immutable
  provenance := ⟨"","",none⟩
  expectedBytes := some 3

/-- The same with a license, and offered by one host. -/
def Artifact.offered : Artifact :=
  { Artifact.sample with sources := [.new "https://a.com/"], provenance := ⟨"","CC0-1.0",none⟩ }

end StarfieldDatastore
