import StarfieldDatastore.Fetch
import Mathlib.Algebra.Ring.Int.Defs

/-! Manifests: the TOML document, the checks in it, and pins. -/
namespace StarfieldDatastore

theorem bind_eq_ok {ε α β : Type} {x : Except ε α} {f : α → Except ε β} {b : β} :
    (x >>= f) = .ok b ↔ ∃ a, x = .ok a ∧ f a = .ok b := by
  cases x with
  | ok a => exact ⟨fun h => ⟨a,rfl,h⟩,fun ⟨_,h,h'⟩ => by cases h; exact h'⟩
  | error e => exact ⟨fun h => (nomatch h),fun ⟨_,h,_⟩ => (nomatch h)⟩

/-- `i64`. -/
abbrev I64 := { n : ℤ // -2^63 ≤ n ∧ n < 2^63 }

/-- `i64::try_from` on a `u64`. -/
def I64.ofNat (n : ℕ) : Option I64 := if h : n < 2^63 then some ⟨n,by omega⟩ else none

/-- `toml::Value`. A table is listed in the order of its keys; nothing looks into floats
and dates. -/
inductive TomlValue
  | string (s : String)
  | integer (n : I64)
  | boolean (b : Bool)
  | other (text : String)
  | array (values : List TomlValue)
  | table (entries : List (String × TomlValue))

inductive SourceEntry
  | url (url : String)
  | detailed (url : String) (trustRedirects : Bool)

def SourceEntry.source : SourceEntry → Source
  | .url raw => .new raw
  | .detailed raw trustRedirects => ⟨raw,trustRedirects⟩

/-- The redirects of a plain URL are not trusted. -/
def Source.entry (source : Source) : SourceEntry :=
  if source.trustRedirects then .detailed source.url true else .url source.url

/-- One `[[artifact]]` as `serde` reads and writes it. -/
structure Entry where
  key : String
  sources : List SourceEntry
  sha256 : Option String
  bytes : Option ℕ
  freshness : String
  check : Option TomlValue
  description : String
  license : String
  citation : Option String

structure Document where
  artifacts : List Entry

/-- The `toml` crate on documents. A parse error has at most a position. -/
structure TomlCrate where
  fromStr : String → Except (Option ℕ) Document
  toStringPretty : Document → Option String

structure Manifest where
  artifacts : List Artifact

def invalid (message : String) : DatastoreError := .manifest message

def validateDigest (digest : String) : Except DatastoreError Unit :=
  if isDigest digest then .ok ()
  else .error (invalid "sha256 must be 64 lowercase hexadecimal characters")

def validateUrl (U : UrlCrate) (raw : String) : Except DatastoreError Unit :=
  match U.parse raw with
  | .error _ => .error (invalid "invalid source URL")
  | .ok url =>
    if (url.scheme ≠ "http" && url.scheme ≠ "https") || url.host.isNone || url.username ≠ "" ||
        url.password.isSome then
      .error (invalid "source must be HTTP(S) without embedded credentials")
    else .ok ()

/-- `std::str::from_utf8`. -/
def fromUtf8 (bytes : Bytes) : Option String := String.fromUTF8? ⟨bytes.toArray⟩

def asBytes (s : String) : Bytes := s.toUTF8.data.toList

def TomlValue.asByte : TomlValue → Except DatastoreError UInt8
  | .integer n =>
    if 0 ≤ n.val ∧ n.val < 256 then .ok (UInt8.ofNat n.val.toNat)
    else .error (invalid "magic byte out of range")
  | _ => .error (invalid "magic byte out of range")

/-- One signature: text, or an array of bytes. -/
def TomlValue.asPrefix : TomlValue → Except DatastoreError Bytes
  | .string s => .ok (asBytes s)
  | .array bytes => bytes.mapM asByte
  | _ => .error (invalid "magic prefix must be text or a byte array")

def parseMagic (entries : List (String × TomlValue)) (magic : TomlValue) :
    Except DatastoreError ContentCheck :=
  if entries.any fun e => e.1 ≠ "magic" && e.1 ≠ "trim_leading_whitespace" then
    .error (invalid "unknown magic-check field")
  else match magic with
  | .array values => do
    let prefixes ← values.mapM TomlValue.asPrefix
    if prefixes.isEmpty || prefixes.any List.isEmpty then
      .error (invalid "magic requires nonempty prefixes")
    else match entries.lookup "trim_leading_whitespace" with
      | none => .ok (.magic prefixes false)
      | some (.boolean trim) => .ok (.magic prefixes trim)
      | some _ => .error (invalid "trim_leading_whitespace must be boolean")
  | _ => .error (invalid "magic must be an array")

/-- A table with one entry, `all` aside. -/
def parseVariant : String → TomlValue → Except DatastoreError ContentCheck
  | "none", .boolean true => .ok .none
  | "not_html", .boolean true => .ok .notHtml
  | "sha256", .string digest => do
    validateDigest digest
    return .sha256 digest
  | "sha256", _ => .error (invalid "sha256 must be text")
  | "min_bytes", .integer n =>
    if 0 ≤ n.val then .ok (.minBytes n.val.toNat)
    else .error (invalid "min_bytes must be nonnegative")
  | "min_bytes", _ => .error (invalid "min_bytes must be nonnegative")
  | "all", _ => .error (invalid "all must be an array")
  | _, _ => .error (invalid ("unknown or invalid declarative check; " ++
      "custom predicates cannot appear in manifests"))

def maxCheckDepth : ℕ := 32

mutual

def parseCheck (depth : ℕ) (value : TomlValue) : Except DatastoreError ContentCheck :=
  if depth > maxCheckDepth then .error (invalid "checks are nested too deeply")
  else match value with
    | .string s =>
      if s = "none" then .ok .none
      else if s = "not-html" then .ok .notHtml
      else .error (invalid "unknown check")
    | .table entries =>
      match entries.lookup "magic" with
      | some magic => parseMagic entries magic
      | none =>
        match entries with
        | [("all",.array values)] => do
          return .all (← parseChecks (depth+1) values)
        | [(name,value)] => parseVariant name value
        | _ => .error (invalid "a check must contain exactly one variant")
    | _ => .error (invalid "check must be a table or named check")

def parseChecks (depth : ℕ) : List TomlValue → Except DatastoreError (List ContentCheck)
  | [] => .ok []
  | value :: values => do
    let check ← parseCheck depth value
    let checks ← parseChecks depth values
    return check :: checks

end

theorem byte_range (b : UInt8) : -2^63 ≤ (b.toNat : ℤ) ∧ (b.toNat : ℤ) < 2^63 := by
  have := b.toNat_lt
  omega

def encodePrefix (bytes : Bytes) : TomlValue :=
  match fromUtf8 bytes with
  | some s => .string s
  | none => .array (bytes.map fun b => .integer ⟨b.toNat,byte_range b⟩)

mutual

/-- A check as a table of one variant; the keys are in the order of `toml::Map`. -/
def encodeCheck : ContentCheck → Except DatastoreError TomlValue
  | .none => .ok (.table [("none",.boolean true)])
  | .notHtml => .ok (.table [("not_html",.boolean true)])
  | .minBytes n =>
    match I64.ofNat n with
    | some n => .ok (.table [("min_bytes",.integer n)])
    | none => .error (invalid "min_bytes exceeds TOML integer range")
  | .sha256 digest => do
    validateDigest digest
    return .table [("sha256",.string digest)]
  | .all checks => do
    return .table [("all",.array (← encodeChecks checks))]
  | .magic prefixes trim =>
    if prefixes.isEmpty || prefixes.any List.isEmpty then
      .error (invalid "magic requires nonempty prefixes")
    else .ok (.table [("magic",.array (prefixes.map encodePrefix)),
      ("trim_leading_whitespace",.boolean trim)])
  | .custom _ => .error (invalid "custom predicates cannot appear in manifests")

def encodeChecks : List ContentCheck → Except DatastoreError (List TomlValue)
  | [] => .ok []
  | check :: checks => do
    let value ← encodeCheck check
    let values ← encodeChecks checks
    return value :: values

end

/-- The pin of a check, if it stands first, and what is left of the check. -/
def splitPin : ContentCheck → Option String × ContentCheck
  | .sha256 digest => (some digest,.none)
  | .all [.sha256 digest,check] => (some digest,check)
  | .all (.sha256 digest :: rest) => (some digest,.all rest)
  | check => (none,check)

mutual

def ensureCompatiblePin (digest : String) : ContentCheck → Except DatastoreError Unit
  | .sha256 existing =>
    if existing ≠ digest then .error (invalid "refusing to replace an existing digest pin")
    else .ok ()
  | .all checks => ensureCompatiblePins digest checks
  | _ => .ok ()

def ensureCompatiblePins (digest : String) : List ContentCheck → Except DatastoreError Unit
  | [] => .ok ()
  | check :: checks => do
    ensureCompatiblePin digest check
    ensureCompatiblePins digest checks

end

/-- Where a parse error is: the line and column of a byte offset. -/
def located (s : String) (start : Option ℕ) : DatastoreError :=
  let offset := min (start.getD 0) (asBytes s).length
  let before := (asBytes s).take offset
  let line := before.count 0x0a+1
  let column := (before.reverse.takeWhile (· ≠ 0x0a)).length+1
  invalid s!"invalid TOML or unknown field at line {line}, column {column}"

namespace Manifest
variable (T : TomlCrate) (U : UrlCrate)

def fromSource (key : ArtifactKey) (entry : SourceEntry) : Except DatastoreError Source := do
  (validateUrl U entry.source.url).mapError fun e => invalid s!"artifact {key.text}: {e.display}"
  return entry.source

/-- The check of an entry, with its digest in front. -/
def fromCheck (key : ArtifactKey) (entry : Entry) : Except DatastoreError ContentCheck := do
  let check ← match entry.check with
    | none => .ok .defaultBinary
    | some value => (parseCheck 0 value).mapError fun e => invalid s!"artifact {key.text}: {e.display}"
  match entry.sha256 with
  | none => .ok check
  | some digest => do
    validateDigest digest
    return .all [.sha256 digest,check]

/-- One entry, in the order in which its errors are reported. -/
def fromEntry (seen : List ArtifactKey) (entry : Entry) : Except DatastoreError Artifact := do
  let key ← ArtifactKey.new entry.key
  if key ∈ seen then .error (invalid s!"duplicate artifact key {key.text}")
  else if entry.freshness ≠ "immutable" then .error (invalid "only immutable freshness is supported")
  else do
    let sources ← entry.sources.mapM (fromSource U key)
    let check ← fromCheck key entry
    return ⟨key,sources,check,.immutable,⟨entry.description,entry.license,entry.citation⟩,entry.bytes⟩

def fromEntries (seen : List ArtifactKey) : List Entry → Except DatastoreError (List Artifact)
  | [] => .ok []
  | entry :: entries => do
    let artifact ← fromEntry U seen entry
    let artifacts ← fromEntries (artifact.key :: seen) entries
    return artifact :: artifacts

def fromTomlStr (s : String) : Except DatastoreError Manifest :=
  match T.fromStr s with
  | .error start => .error (located s start)
  | .ok document => do
    return ⟨← fromEntries U [] document.artifacts⟩

def toSource (source : Source) : Except DatastoreError SourceEntry := do
  validateUrl U source.url
  return source.entry

def validatePin : Option String → Except DatastoreError Unit
  | none => .ok ()
  | some digest => validateDigest digest

def toEntry (seen : List ArtifactKey) (artifact : Artifact) : Except DatastoreError Entry :=
  if artifact.key ∈ seen then .error (invalid "duplicate artifact key")
  else do
    let pin := splitPin artifact.check
    validatePin pin.1
    let sources ← artifact.sources.mapM (toSource U)
    let check ← encodeCheck pin.2
    return ⟨artifact.key.text,sources,pin.1,artifact.expectedBytes,"immutable",some check,
      artifact.provenance.description,artifact.provenance.license,artifact.provenance.citation⟩

def toEntries (seen : List ArtifactKey) : List Artifact → Except DatastoreError (List Entry)
  | [] => .ok []
  | artifact :: artifacts => do
    let entry ← toEntry U seen artifact
    let entries ← toEntries (artifact.key :: seen) artifacts
    return entry :: entries

def toTomlString (m : Manifest) : Except DatastoreError String := do
  let entries ← toEntries U [] m.artifacts
  match T.toStringPretty ⟨entries⟩ with
  | some s => return s
  | none => throw (invalid "cannot encode manifest")

def get (m : Manifest) (key : ArtifactKey) : Option Artifact := m.artifacts.find? (·.key = key)

def pinArtifact (digest : String) (artifact : Artifact) : Except DatastoreError Artifact := do
  ensureCompatiblePin digest artifact.check
  let (pin,check) := splitPin artifact.check
  if pin = some digest then return artifact
  else return { artifact with check := .all [.sha256 digest,check] }

/-- Pins the first artifact of that key. -/
def pinFirst (key : ArtifactKey) (digest : String) : List Artifact → Except DatastoreError (List Artifact)
  | [] => .error (invalid s!"cannot pin unknown key {key.text}")
  | artifact :: artifacts =>
    if artifact.key = key then do
      return (← pinArtifact digest artifact) :: artifacts
    else do
      return artifact :: (← pinFirst key digest artifacts)

/-- Pins a validated mirror result without silently changing an existing pin. -/
def pinSha256 (m : Manifest) (key : ArtifactKey) (digest : String) : Except DatastoreError Manifest := do
  validateDigest digest
  return ⟨← pinFirst key digest m.artifacts⟩

end Manifest
end StarfieldDatastore
