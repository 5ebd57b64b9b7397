import StarfieldDatastore.Provider
import StarfieldDatastore.Cache
import StarfieldDatastore.S3

/-! The configuration file: what is checked of it, the provider of a selection of its
credentials, and the builder that a service starts from. -/
namespace StarfieldDatastore

section lookup
variable {α β : Type} [DecidableEq α] {l : List (α × β)} {a : α} {b : β}

theorem lookup_iff_mem (h : (l.map Prod.fst).Nodup) :
    l.lookup a = some b ↔ (a,b) ∈ l := by
  induction l with
  | nil => simp
  | cons e l ih =>
    obtain ⟨a',b'⟩ := e
    obtain ⟨hne,h⟩ := List.nodup_cons.mp h
    by_cases ha : a = a'
    · subst ha
      have hout : (a,b) ∉ l := fun hmem => hne (List.mem_map.mpr ⟨_,hmem,rfl⟩)
      simp [hout,eq_comm]
    · have hb : (a == a') = false := by simpa using ha
      simp [List.lookup_cons,hb,ih h,ha]

theorem lookup_none_iff : l.lookup a = none ↔ a ∉ l.map Prod.fst := by
  rw [List.lookup_eq_none_iff]
  simp only [List.mem_map,not_exists,not_and,bne_iff_ne,ne_eq]
  exact ⟨fun h p hp he => h p hp he.symm,fun h p hp he => h p hp he.symm⟩

end lookup

/-- `str::trim`. -/
def trimWhitespace (text : String) : String :=
  String.ofList ((text.toList.dropWhile isWhitespace).reverse.dropWhile isWhitespace).reverse

def toAsciiLowercase (text : String) : String := String.ofList (text.toList.map Char.toLower)

/-- A character in `{:?}` of a string. -/
def debugChar (c : Char) : String :=
  if c = '"' then "\\\""
  else if c = '\\' then "\\\\"
  else if c = '\n' then "\\n"
  else if c = '\r' then "\\r"
  else if c = '\t' then "\\t"
  else if c.toNat = 0 then "\\0"
  else if c.toNat < 0x20 || 0x7f ≤ c.toNat && c.toNat < 0xa0 then
    "\\u\x7b" ++ String.ofList (Nat.toDigits 16 c.toNat) ++ "\x7d"
  else String.ofList [c]

def debugText (text : String) : String := "\"" ++ String.join (text.toList.map debugChar) ++ "\""

namespace JsonValue

/-- `Value::get` with a key. -/
def get : JsonValue → String → Option JsonValue
  | .object entries, key => entries.lookup key
  | _, _ => none

def asStr : JsonValue → Option String
  | .string s => some s
  | _ => none

end JsonValue

def kindOf (raw : JsonValue) : String := ((raw.get "type").bind JsonValue.asStr).getD "<missing>"

namespace CredentialConfig

def invalid (entry : CredentialConfig) (detail : String) : DatastoreError :=
  .config s!"credential \"{entry.name}\": {detail}"

def isBareHost (host : String) : Bool :=
  let host := (trimWhitespace host).toList
  !host.isEmpty && host.all fun c => c.isAlphanum || c = '.' || c = '-'

def validateSource (entry : CredentialConfig) : Except DatastoreError Unit :=
  match entry.source with
  | .env variable_ =>
    if trimWhitespace variable_ = "" then .error (entry.invalid "`variable` is empty") else .ok ()
  | .basic username passwordEnv =>
    if username = "" || trimWhitespace passwordEnv = "" then
      .error (entry.invalid "`username` and `password_env` are required")
    else .ok ()
  | .onePassword reference =>
    if "op://".toList.isPrefixOf reference.toList then .ok ()
    else .error (entry.invalid "`reference` must start with op://")
  | _ => .ok ()

/-- What is checked of an entry, after the entries with these names. -/
def validate (names : List String) (entry : CredentialConfig) : Except DatastoreError Unit :=
  if trimWhitespace entry.name = "" then .error (.config "a credential entry has an empty name")
  else if entry.name ∈ names then .error (entry.invalid "name is used twice")
  else if entry.hosts.isEmpty then .error (entry.invalid "lists no hosts")
  else match entry.hosts.find? fun host => !isBareHost host with
    | some host => .error (entry.invalid (s!"host {debugText host} must be a bare hostname: " ++
        "no port, path, scheme or wildcard"))
    | none => entry.validateSource

def recognized (entry : CredentialConfig) : Bool :=
  match entry.source with
  | .unrecognized _ => false
  | _ => true

def normalizeHost (host : String) : String := toAsciiLowercase (trimWhitespace host)

end CredentialConfig

def validateFrom (names : List String) : List CredentialConfig → Except DatastoreError Unit
  | [] => .ok ()
  | entry :: entries => do
    entry.validate names
    validateFrom (entry.name :: names) entries

/-- All that can be checked of entries without touching a secret. -/
def validateEntries (entries : List CredentialConfig) : Except DatastoreError Unit := validateFrom [] entries

/-- An entry of a type that is not recognised, left out of the provider. -/
structure SkippedCredential where
  name : String
  kind : String

/-- Adds the hosts of an entry to those that are claimed already. -/
def claim (entry : CredentialConfig) (byHost : List (String × CredentialConfig)) :
    List String → Except DatastoreError (List (String × CredentialConfig))
  | [] => .ok byHost
  | host :: hosts =>
    match byHost.lookup host with
    | some other => .error (.config (s!"host {host} is claimed by both credential \"{other.name}\" and " ++
        s!"\"{entry.name}\" in the same selection"))
    | none => claim entry ((host,entry) :: byHost) hosts

def collect (byHost : List (String × CredentialConfig)) (skipped : List SkippedCredential) :
    List CredentialConfig → Except DatastoreError (List (String × CredentialConfig) × List SkippedCredential)
  | [] => .ok (byHost,skipped)
  | entry :: entries =>
    match entry.source with
    | .unrecognized raw => collect byHost (skipped++[⟨entry.name,kindOf raw⟩]) entries
    | _ => do
      let entry := { entry with hosts := entry.hosts.map CredentialConfig.normalizeHost }
      collect (← claim entry byHost entry.hosts) skipped entries

/-- The provider of one active selection of entries, with those that are left out. -/
def configuredProvider (entries : List CredentialConfig) :
    Except DatastoreError (Provider × List SkippedCredential) := do
  validateEntries entries
  let (byHost,skipped) ← collect [] [] entries
  return (.config byHost,skipped)

def providerWithWarnings (entries : List CredentialConfig) : Except DatastoreError Provider := do
  let (provider,_) ← configuredProvider entries
  return provider

/-- A named instance of the service. `bind` is an address as it is printed. -/
structure ServiceConfig where
  cache : Option ServiceCachePolicy
  manifest : Option String
  bucket : Option String
  region : Option String
  bind : Option String
  /-- `none` inherits the default chain, a list selects only those credentials. -/
  credentials : Option (List String)

/-- The configuration file. -/
structure DatastoreConfig where
  cacheDir : Option String
  mirror : Option String
  mirrorRegion : Option String
  allowUpstream : Option Bool
  offline : Option Bool
  cacheMax : Option ℕ
  credentials : List CredentialConfig
  services : AList fun _ : String => ServiceConfig

/-- Where a mirror lives, before it is opened. -/
inductive MirrorSpec
  | http (baseUrl : String) (writable : Bool)
  | s3 (bucket pre region : String) (writable : Bool)

structure DatastoreBuilder where
  cacheRoot : Option String
  mirror : Option MirrorSpec
  credentials : Option Provider
  allowUpstream : Option Bool
  offline : Option Bool
  maxBytes : Option ℕ

def DatastoreBuilder.default : DatastoreBuilder := ⟨none,none,none,none,none,none⟩

def envVar (env : Environment) (name : String) : Option String :=
  match env name with
  | .value text => if trimWhitespace text ≠ "" then some text else none
  | _ => none

def parseBool (name raw : String) : Except DatastoreError Bool :=
  let text := toAsciiLowercase (trimWhitespace raw)
  if text ∈ ["1","true","yes","on"] then .ok true
  else if text ∈ ["0","false","no","off"] then .ok false
  else .error (.config s!"{name} must be 1/0, true/false, yes/no or on/off, got {debugText text}")

def envBool (env : Environment) (name : String) : Except DatastoreError (Option Bool) :=
  match envVar env name with
  | none => .ok none
  | some raw => (parseBool name raw).map some

/-- `http(s)://…` is an HTTP mirror, `s3://bucket/prefix` an S3 mirror, which needs a region. -/
def parseMirror (env : Environment) (spec : String) (region : Option String) :
    Except DatastoreError MirrorSpec :=
  if "s3://".toList.isPrefixOf spec.toList then
    let rest := spec.toList.drop 5
    let bucket := rest.takeWhile (· ≠ '/')
    let pre := trimMatches '/' (rest.drop (bucket.length+1))
    if bucket.isEmpty then .error (.config s!"mirror {debugText spec} has no bucket")
    else match (region.or (envVar env "AWS_REGION")).or (envVar env "AWS_DEFAULT_REGION") with
      | none => .error (.config (s!"S3 mirror {spec} needs a region: set " ++
          "STARFIELD_MIRROR_REGION or AWS_REGION"))
      | some region => .ok (.s3 (String.ofList bucket) (String.ofList pre) region false)
  else if "http://".toList.isPrefixOf spec.toList || "https://".toList.isPrefixOf spec.toList then
    .ok (.http (String.ofList (spec.toList.reverse.dropWhile (· == '/')).reverse) false)
  else .error (.config s!"mirror {debugText spec} must be an http(s):// URL or s3://bucket/prefix")

namespace DatastoreConfig

/-- The names of the entries, when they are all different and the entries are well formed. -/
def validateCredentials (names : List String) : List CredentialConfig → Except DatastoreError (List String)
  | [] => .ok names
  | entry :: entries =>
    if entry.name ∈ names then .error (.config s!"duplicate credential {entry.name}")
    else do
      validateEntries [entry]
      validateCredentials (entry.name :: names) entries

def validateCache (c : DatastoreConfig) : Option ServiceCachePolicy → Except DatastoreError Unit
  | none => .ok ()
  | some policy => do
    policy.validate
    if policy.evictOnFetch && c.cacheDir.isNone then
      .error (.config "automatic service eviction requires an explicit cache_dir")
    else .ok ()

def validateSelection (names : List String) (name : String) : Option (List String) → Except DatastoreError Unit
  | none => .ok ()
  | some selected =>
    match selected.find? fun s => s ∉ names with
    | some missing => .error (.config s!"service {name} names unknown credential {missing}")
    | none => .ok ()

def validateService (c : DatastoreConfig) (names : List String) (name : String) (service : ServiceConfig) :
    Except DatastoreError Unit := do
  c.validateCache service.cache
  if trimWhitespace name = "" then .error (.config "service name is empty")
  else validateSelection names name service.credentials

def validate (c : DatastoreConfig) : Except DatastoreError Unit := do
  let names ← validateCredentials [] c.credentials
  c.services.entries.forM fun s => c.validateService names s.1 s.2

def fillMirror (env : Environment) (file : DatastoreConfig) :
    Option MirrorSpec → Except DatastoreError (Option MirrorSpec)
  | some mirror => .ok (some mirror)
  | none =>
    let region := (envVar env "STARFIELD_MIRROR_REGION").or file.mirrorRegion
    match (envVar env "STARFIELD_MIRROR").or file.mirror with
    | some spec => (parseMirror env spec region).map some
    | none => .ok none

def fillBool (env : Environment) (name : String) (file : Option Bool) :
    Option Bool → Except DatastoreError (Option Bool)
  | some b => .ok (some b)
  | none => (envBool env name).map fun found => found.or file

def fillCredentials (file : DatastoreConfig) : Option Provider → Except DatastoreError Provider
  | some provider => .ok provider
  | none => (providerWithWarnings file.credentials).map fun p => .chain [p,defaultCredentials]

def fillMaxBytes (env : Environment) (file : DatastoreConfig) : Option ℕ → Except DatastoreError (Option ℕ)
  | some max => .ok (some max)
  | none =>
    match envVar env "STARFIELD_CACHE_MAX" with
    | none => .ok file.cacheMax
    | some raw =>
      match parseU64 raw with
      | some max => .ok (some max)
      | none => .error (.config s!"STARFIELD_CACHE_MAX must be a byte count, got {debugText raw}")

/-- Fills what the caller left unset from the environment, then from the file. -/
def applyFile (env : Environment) (builder : DatastoreBuilder) (file : DatastoreConfig) :
    Except DatastoreError DatastoreBuilder := do
  let cacheRoot := builder.cacheRoot.or ((envVar env "STARFIELD_CACHE_DIR").or file.cacheDir)
  let mirror ← fillMirror env file builder.mirror
  let allowUpstream ← fillBool env "STARFIELD_ALLOW_UPSTREAM" file.allowUpstream builder.allowUpstream
  let offline ← fillBool env "STARFIELD_OFFLINE" file.offline builder.offline
  let credentials ← fillCredentials file builder.credentials
  let maxBytes ← fillMaxBytes env file builder.maxBytes
  return ⟨cacheRoot,mirror,some credentials,allowUpstream,offline,maxBytes⟩

/-- The entry with a name, the first if there are several. -/
def credential (c : DatastoreConfig) (name : String) : Option CredentialConfig :=
  c.credentials.find? fun entry => entry.name = name

def select (c : DatastoreConfig) (names : List String) : Except DatastoreError (List CredentialConfig) :=
  names.mapM fun name =>
    match c.credential name with
    | some entry => .ok entry
    | none => .error (.config s!"unknown credential {name}")

def builderForService (c : DatastoreConfig) (env : Environment) (name : String) :
    Except DatastoreError DatastoreBuilder :=
  match c.services.lookup name with
  | none => .error (.config s!"unknown service {name}")
  | some service => do
    c.validate
    match service.credentials with
    | none => applyFile env .default c
    | some names =>
      let provider ← providerWithWarnings (← c.select names)
      applyFile env { DatastoreBuilder.default with credentials := some provider } c

end DatastoreConfig
end StarfieldDatastore
