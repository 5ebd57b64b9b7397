import StarfieldDatastore.Config

/-! The configuration file as TOML. What an entry of unknown type holds goes through the
values of JSON, on the way in and on the way out. -/
namespace StarfieldDatastore

/-- A value in a TOML document. A table is listed in the order of its keys; floats and dates
are given as they are printed. -/
inductive TomlItem
  | string (s : String)
  | integer (n : I64)
  | float (text : String)
  | boolean (b : Bool)
  | datetime (text : String)
  | array (items : List TomlItem)
  | table (entries : List (String × TomlItem))

/-- `f64::is_finite`, of a printed float. -/
def isFinite (text : String) : Bool := text ∉ ["inf","-inf","nan","-nan"]

/-- The keys of a table in ascending order. -/
def Ascending {α : Type} (entries : List (String × α)) : Prop := (entries.map Prod.fst).Pairwise (· < ·)

namespace TomlItem

mutual

/-- Every table in it is in the order of its keys. -/
def Ordered : TomlItem → Prop
  | .array items => OrderedItems items
  | .table entries => Ascending entries ∧ OrderedEntries entries
  | _ => True

def OrderedItems : List TomlItem → Prop
  | [] => True
  | item :: items => item.Ordered ∧ OrderedItems items

def OrderedEntries : List (String × TomlItem) → Prop
  | [] => True
  | (_,item) :: entries => item.Ordered ∧ OrderedEntries entries

end

mutual

/-- No float in it is infinite or not a number. -/
def finite : TomlItem → Bool
  | .float text => isFinite text
  | .array items => finiteItems items
  | .table entries => finiteEntries entries
  | _ => true

def finiteItems : List TomlItem → Bool
  | [] => true
  | item :: items => item.finite && finiteItems items

def finiteEntries : List (String × TomlItem) → Bool
  | [] => true
  | (_,item) :: entries => item.finite && finiteEntries entries

end

mutual

/-- What `serde_json::Value` makes of an item. -/
def value : TomlItem → JsonValue
  | .string s => .string s
  | .integer n => .integer n.val
  | .float text => if isFinite text then .float text else .null
  | .boolean b => .boolean b
  | .datetime text => .object [("$__toml_private_datetime",.string text)]
  | .array items => .array (values items)
  | .table entries => .object (fields entries)

def values : List TomlItem → List JsonValue
  | [] => []
  | item :: items => item.value :: values items

def fields : List (String × TomlItem) → List (String × JsonValue)
  | [] => []
  | (key,item) :: entries => (key,item.value) :: fields entries

end

def asString : TomlItem → Option String
  | .string s => some s
  | _ => none

def asBool : TomlItem → Option Bool
  | .boolean b => some b
  | _ => none

/-- A `u64` or `usize`. -/
def asU64 : TomlItem → Option ℕ
  | .integer n => if 0 ≤ n.val then some n.val.toNat else none
  | _ => none

def asStrings : TomlItem → Option (List String)
  | .array items => items.mapM asString
  | _ => none

end TomlItem

/-- The `toml` crate: the table of a document, with the line of an error if there is one, and
the text of a table. It decodes what it encodes. -/
structure ConfigToml where
  parse : String → Except (Option ℕ) (List (String × TomlItem))
  errorLine : String → Option ℕ
  print : List (String × TomlItem) → String
  parse_ordered : ∀ text entries, parse text = .ok entries → (TomlItem.table entries).Ordered
  parse_print : ∀ entries, (TomlItem.table entries).Ordered → parse (print entries) = .ok entries

/-- `SocketAddr::from_str`, with the address as it is printed. -/
structure SocketText where
  parse : String → Option String
  parse_print : ∀ text address, parse text = some address → parse address = some address

def I64.ofInt (n : ℤ) : Option I64 := if h : -2^63 ≤ n ∧ n < 2^63 then some ⟨n,h⟩ else none

namespace JsonValue

mutual

/-- What the TOML serialiser makes of a value; it has nothing for `null`. -/
def item : JsonValue → Option TomlItem
  | .null => none
  | .boolean b => some (.boolean b)
  | .integer n => (I64.ofInt n).map .integer
  | .float text => some (.float text)
  | .string s => some (.string s)
  | .array values => (items values).map .array
  | .object entries => (fieldItems entries).map .table

def items : List JsonValue → Option (List TomlItem)
  | [] => some []
  | value :: values => do return (← value.item) :: (← items values)

def fieldItems : List (String × JsonValue) → Option (List (String × TomlItem))
  | [] => some []
  | (key,value) :: entries => do return (key,← value.item) :: (← fieldItems entries)

end

mutual

/-- A date arrives as a table with a private key. -/
def containsTomlDatetime : JsonValue → Bool
  | .object entries => containsInEntries entries
  | .array values => containsInValues values
  | _ => false

def containsInValues : List JsonValue → Bool
  | [] => false
  | value :: values => value.containsTomlDatetime || containsInValues values

def containsInEntries : List (String × JsonValue) → Bool
  | [] => false
  | (key,value) :: entries => "$__toml_private_".toList.isPrefixOf key.toList ||
      value.containsTomlDatetime || containsInEntries entries

end

end JsonValue

/-- `Map::insert`: the map stays in the order of its keys. -/
def insertKey {α : Type} (key : String) (value : α) : List (String × α) → List (String × α)
  | [] => [(key,value)]
  | (key',value') :: entries =>
    if key < key' then (key,value) :: (key',value') :: entries
    else if key = key' then (key,value) :: entries
    else (key',value') :: insertKey key value entries

def literalSecretKeys : List String := ["password","token","secret","api_key"]

/-- A known type is held to its exact fields, anything else is kept as it is. `malformed` is
what `serde_json` says about fields that do not fit. -/
def decodeSource (malformed : List (String × JsonValue) → String) (name : String)
    (raw : List (String × JsonValue)) : Except String CredentialSource :=
  match raw.lookup "type" with
  | some (.string kind) =>
    if kind ∉ ["env","basic","netrc","onepassword"] then
      if (JsonValue.object raw).containsTomlDatetime then
        .error (s!"credential \"{name}\" (type {kind}): datetime values are not supported in " ++
          "credential entries")
      else .ok (.unrecognized (.object raw))
    else match literalSecretKeys.find? fun key => (raw.lookup key).isSome with
      | some key => .error (s!"credential \"{name}\" carries a literal `{key}`; name an environment " ++
          s!"variable with `{key}_env` or use netrc/onepassword instead")
      | none =>
        match kind, raw.filter fun e => e.1 ≠ "type" with
        | "env", [("variable",.string variable_)] => .ok (.env variable_)
        | "basic", [("password_env",.string passwordEnv),("username",.string username)] =>
          .ok (.basic username passwordEnv)
        | "netrc", [] => .ok .netrc
        | "onepassword", [("reference",.string reference)] => .ok (.onePassword reference)
        | _, fields => .error s!"credential \"{name}\" (type {kind}): {malformed fields}"
  | some _ => .error s!"credential \"{name}\": `type` must be a string"
  | none => .error s!"credential \"{name}\" has no `type`"

namespace CredentialConfig

/-- The hosts of an entry; they may be left out. -/
def deserializeHosts : Option TomlItem → Option (List String)
  | none => some []
  | some item => item.asStrings

def deserialize (malformed : List (String × JsonValue) → String) : TomlItem → Option CredentialConfig
  | .table entries => do
    let name ← (entries.lookup "name").bind TomlItem.asString
    let hosts ← deserializeHosts (entries.lookup "hosts")
    let raw := entries.filter fun e => e.1 ≠ "name" && e.1 ≠ "hosts"
    let source ← (decodeSource malformed name (TomlItem.fields raw)).toOption
    return ⟨name,hosts,source⟩
  | _ => none

/-- The fields of an entry of unknown type, after those that every entry has. -/
def insertFields (name : String) (map : List (String × JsonValue)) :
    List (String × JsonValue) → Except String (List (String × JsonValue))
  | [] => .ok map
  | (key,value) :: fields =>
    if key = "name" || key = "hosts" then
      .error s!"credential \"{name}\": unrecognised source must not carry a `{key}` key"
    else insertFields name (insertKey key value map) fields

def serializeMap (entry : CredentialConfig) : Except String (List (String × JsonValue)) :=
  let map := insertKey "hosts" (.array (entry.hosts.map .string)) [("name",.string entry.name)]
  match entry.source with
  | .env variable_ => .ok (insertKey "variable" (.string variable_) (insertKey "type" (.string "env") map))
  | .basic username passwordEnv => .ok (insertKey "password_env" (.string passwordEnv)
      (insertKey "username" (.string username) (insertKey "type" (.string "basic") map)))
  | .netrc => .ok (insertKey "type" (.string "netrc") map)
  | .onePassword reference => .ok (insertKey "reference" (.string reference)
      (insertKey "type" (.string "onepassword") map))
  | .unrecognized (.object fields) => insertFields entry.name map fields
  | .unrecognized _ => .error s!"credential \"{entry.name}\": unrecognised source is not a table"

def serialize (entry : CredentialConfig) : Option TomlItem :=
  entry.serializeMap.toOption.bind fun map => (JsonValue.object map).item

end CredentialConfig

/-- The fields of a record that are there. -/
def record (fields : List (String × Option TomlItem)) : List (String × TomlItem) :=
  fields.filterMap fun f => f.2.map fun item => (f.1,item)

/-- An optional field of a record. -/
def optional {α : Type} (f : TomlItem → Option α) : Option TomlItem → Option (Option α)
  | none => some none
  | some item => (f item).map some

/-- An optional field that is written. -/
def written {α : Type} (f : α → Option TomlItem) : Option α → Option (Option TomlItem)
  | none => some none
  | some a => (f a).map some

/-- `deny_unknown_fields`. -/
def knownOnly (names : List String) (entries : List (String × TomlItem)) : Bool :=
  entries.all fun e => e.1 ∈ names

def natItem (n : ℕ) : Option TomlItem := (I64.ofNat n).map .integer

def stringsItem (texts : List String) : TomlItem := .array (texts.map .string)

namespace ServiceCachePolicy

def deserialize : TomlItem → Option ServiceCachePolicy
  | .table entries => do
    guard (knownOnly ["evict_on_fetch","max_artifact_bytes","max_bytes","max_concurrent_fills",
      "max_inflight_bytes","min_free_bytes"] entries)
    let evictOnFetch ← optional TomlItem.asBool (entries.lookup "evict_on_fetch")
    let maxArtifactBytes ← (entries.lookup "max_artifact_bytes").bind TomlItem.asU64
    let maxBytes ← (entries.lookup "max_bytes").bind TomlItem.asU64
    let maxConcurrentFills ← (entries.lookup "max_concurrent_fills").bind TomlItem.asU64
    let maxInflightBytes ← (entries.lookup "max_inflight_bytes").bind TomlItem.asU64
    let minFreeBytes ← (entries.lookup "min_free_bytes").bind TomlItem.asU64
    if h : maxConcurrentFills < 2^64 then
      return ⟨evictOnFetch.getD false,maxBytes,maxConcurrentFills,maxArtifactBytes,maxInflightBytes,
        minFreeBytes,h⟩
    else none
  | _ => none

def serialize (p : ServiceCachePolicy) : Option TomlItem := do
  return .table [("evict_on_fetch",.boolean p.evictOnFetch),
    ("max_artifact_bytes",← natItem p.maxArtifactBytes),("max_bytes",← natItem p.maxBytes),
    ("max_concurrent_fills",← natItem p.maxConcurrentFills),
    ("max_inflight_bytes",← natItem p.maxInflightBytes),("min_free_bytes",← natItem p.minFreeBytes)]

end ServiceCachePolicy

namespace ServiceConfig

def names : List String := ["bind","bucket","cache","credentials","manifest","region"]

def deserialize (S : SocketText) : TomlItem → Option ServiceConfig
  | .table entries => do
    guard (knownOnly names entries)
    let bind ← optional (fun item => item.asString.bind S.parse) (entries.lookup "bind")
    let bucket ← optional TomlItem.asString (entries.lookup "bucket")
    let cache ← optional ServiceCachePolicy.deserialize (entries.lookup "cache")
    let credentials ← optional TomlItem.asStrings (entries.lookup "credentials")
    let manifest ← optional TomlItem.asString (entries.lookup "manifest")
    let region ← optional TomlItem.asString (entries.lookup "region")
    return ⟨cache,manifest,bucket,region,bind,credentials⟩
  | _ => none

def fields (s : ServiceConfig) (cache : Option TomlItem) : List (String × Option TomlItem) :=
  [("bind",s.bind.map .string),("bucket",s.bucket.map .string),("cache",cache),
    ("credentials",s.credentials.map stringsItem),("manifest",s.manifest.map .string),
    ("region",s.region.map .string)]

def serialize (s : ServiceConfig) : Option TomlItem := do
  return .table (record (s.fields (← written ServiceCachePolicy.serialize s.cache)))

end ServiceConfig

namespace DatastoreConfig

def names : List String := ["allow_upstream","cache_dir","cache_max","credentials","mirror","mirror_region",
  "offline","services"]

def deserializeCredentials (malformed : List (String × JsonValue) → String) :
    Option TomlItem → Option (List CredentialConfig)
  | none => some []
  | some (.array items) => items.mapM (CredentialConfig.deserialize malformed)
  | some _ => none

def deserializeServices (S : SocketText) : Option TomlItem → Option (AList fun _ : String => ServiceConfig)
  | none => some ∅
  | some (.table entries) => do
    let services : List (Sigma fun _ : String => ServiceConfig) ← entries.mapM fun e =>
      (ServiceConfig.deserialize S e.2).map fun service => ⟨e.1,service⟩
    if h : services.keys.Nodup then return ⟨services,h⟩ else none
  | some _ => none

def deserialize (S : SocketText) (malformed : List (String × JsonValue) → String)
    (entries : List (String × TomlItem)) : Option DatastoreConfig := do
  guard (knownOnly names entries)
  let allowUpstream ← optional TomlItem.asBool (entries.lookup "allow_upstream")
  let cacheDir ← optional TomlItem.asString (entries.lookup "cache_dir")
  let cacheMax ← optional TomlItem.asU64 (entries.lookup "cache_max")
  let credentials ← deserializeCredentials malformed (entries.lookup "credentials")
  let mirror ← optional TomlItem.asString (entries.lookup "mirror")
  let mirrorRegion ← optional TomlItem.asString (entries.lookup "mirror_region")
  let offline ← optional TomlItem.asBool (entries.lookup "offline")
  let services ← deserializeServices S (entries.lookup "services")
  return ⟨cacheDir,mirror,mirrorRegion,allowUpstream,offline,cacheMax,credentials,services⟩

def serializeServices (services : AList fun _ : String => ServiceConfig) : Option TomlItem := do
  let entries ← (services.entries.insertionSort fun a b => a.1 ≤ b.1).mapM fun s =>
    s.2.serialize.map fun item => (s.1,item)
  return .table entries

def fields (c : DatastoreConfig) (cacheMax : Option TomlItem) (credentials : List TomlItem) (services : TomlItem) :
    List (String × Option TomlItem) :=
  [("allow_upstream",c.allowUpstream.map .boolean),("cache_dir",c.cacheDir.map .string),
    ("cache_max",cacheMax),("credentials",some (.array credentials)),("mirror",c.mirror.map .string),
    ("mirror_region",c.mirrorRegion.map .string),("offline",c.offline.map .boolean),("services",some services)]

def serialize (c : DatastoreConfig) : Option (List (String × TomlItem)) := do
  let cacheMax ← written natItem c.cacheMax
  let credentials ← c.credentials.mapM CredentialConfig.serialize
  return record (c.fields cacheMax credentials (← serializeServices c.services))

def invalidAt (line : Option ℕ) : DatastoreError :=
  let place := (line.map fun n => s!" at line {n}").getD ""
  .config s!"invalid configuration{place}; check field names and credential types"

def fromTomlStr (T : ConfigToml) (S : SocketText) (malformed : List (String × JsonValue) → String)
    (text : String) : Except DatastoreError DatastoreConfig :=
  match T.parse text with
  | .error line => .error (invalidAt line)
  | .ok entries =>
    match deserialize S malformed entries with
    | none => .error (invalidAt (T.errorLine text))
    | some c => do
      c.validate
      return c

def toTomlString (T : ConfigToml) (c : DatastoreConfig) : Except DatastoreError String :=
  match c.serialize with
  | some entries => .ok (T.print entries)
  | none => .error (.config "configuration cannot be represented as TOML")

end DatastoreConfig
end StarfieldDatastore
