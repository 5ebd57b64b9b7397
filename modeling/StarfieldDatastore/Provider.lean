import StarfieldDatastore.Manifest

/-! The providers of credentials: `.netrc`, the entries of the configuration file, and
chains of them. -/
namespace StarfieldDatastore

/-- `serde_json::Value`; an object is listed in the order of its keys. -/
inductive JsonValue
  | null
  | boolean (b : Bool)
  | integer (n : ℤ)
  | float (text : String)
  | string (s : String)
  | array (values : List JsonValue)
  | object (entries : List (String × JsonValue))

/-- `$HOME/.netrc`: its text and its permission bits. -/
inductive NetrcFile
  | missing
  | unreadable (error : IoError)
  | file (text : String) (mode : Except IoError ℕ)

/-- What the `op` command leaves behind. -/
structure OpOutput where
  success : Bool
  stdout : Bytes

/-- What the providers read: the environment, the home directory, and the `op` command in a
build with 1Password. -/
structure Machine where
  env : Environment
  netrc : NetrcFile
  op : Option (String → Except IoError OpOutput)

namespace Netrc

/-- The tokeniser between two characters. -/
structure Scanner where
  tokens : List String
  token : List Char
  quoted : Bool
  escaped : Bool
  comment : Bool

def Scanner.start : Scanner := ⟨[],[],false,false,false⟩

def Scanner.flush (s : Scanner) : Scanner :=
  if s.token.isEmpty then s
  else { s with tokens := s.tokens++[String.ofList s.token], token := [] }

/-- A character outside of a comment; a comment ends with its line. -/
def Scanner.scan (s : Scanner) (c : Char) : Scanner :=
  if s.escaped then { s with token := s.token++[c], escaped := false }
  else if c = '\\' then { s with escaped := true }
  else if c = '"' then { s with quoted := !s.quoted }
  else
    let s := if c = '#' && !s.quoted then { s with comment := true } else s
    if (isWhitespace c || s.comment) && !s.quoted then s.flush
    else { s with token := s.token++[c] }

def Scanner.next (s : Scanner) (c : Char) : Scanner :=
  if s.comment then if c = '\n' then { s with comment := false }.scan c else s else s.scan c

def tokenize (text : String) : Except DatastoreError (List String) :=
  let s := text.toList.foldl Scanner.next .start
  if s.quoted || s.escaped then .error (.config "invalid .netrc quoting")
  else .ok s.flush.tokens

def netrcCredential : Option String → Option String → Except DatastoreError (Option Credential)
  | some user, some secret => .ok (some (.basic user secret))
  | _, _ => .error (.config ".netrc machine needs login and password")

/-- The fields after the ones of `machine` that have been read. -/
def fields (host : String) (machine user password : Option String) :
    List String → Except DatastoreError (Option Credential)
  | [] => if machine = some host then netrcCredential user password else .ok none
  | field :: rest =>
    if field = "machine" || field = "default" then
      if machine = some host then netrcCredential user password
      else if field = "machine" then
        match rest with
        | [] => .ok none
        | name :: rest => fields host (some name) none none rest
      else fields host none none none rest
    else if field = "login" || field = "password" || field = "account" then
      match rest with
      | [] => .error (.config "incomplete .netrc entry")
      | value :: rest =>
        fields host machine (if field = "login" then some value else user)
          (if field = "password" then some value else password) rest
    else .error (.config "unsupported or malformed .netrc field")

end Netrc

def parseNetrc (text host : String) : Except DatastoreError (Option Credential) := do
  Netrc.fields host none none none (← Netrc.tokenize text)

namespace NetrcProvider

def credentialFor (m : Machine) (host : String) : Except DatastoreError (Option Credential) :=
  if m.env "HOME" = .notPresent then .ok none
  else match m.netrc with
    | .missing => .ok none
    | .unreadable e => .error (.io e)
    | .file _ (.error e) => .error (.io e)
    | .file text (.ok mode) =>
      if mode &&& 0o077 ≠ 0 then
        .error (.config ".netrc must not be accessible to group or other users (chmod 600)")
      else parseNetrc text host

def identityFor (m : Machine) (host : String) : Option String :=
  match credentialFor m host with
  | .ok (some _) => some s!"netrc:{host}"
  | _ => none

end NetrcProvider

/-- Where the secret of an entry comes from. -/
inductive CredentialSource
  | env (variable_ : String)
  | basic (username passwordEnv : String)
  | netrc
  | onePassword (reference : String)
  | unrecognized (raw : JsonValue)

/-- One credential entry of the configuration file. -/
structure CredentialConfig where
  name : String
  hosts : List String
  source : CredentialSource

def readEnv (m : Machine) (variable_ : String) : Option String :=
  match m.env variable_ with
  | .value text => if text ≠ "" then some text else none
  | _ => none

/-- `trim_end_matches(['\r', '\n'])`. -/
def trimLineEnd (text : String) : String :=
  String.ofList (text.toList.reverse.dropWhile fun c => c = '\r' || c = '\n').reverse

def onePassword (m : Machine) (name reference : String) :
    Except DatastoreError (Option Credential) :=
  match m.op with
  | none => .error (.config (s!"credential \"{name}\" uses 1Password, but this build has no " ++
      "`onepassword` feature"))
  | some op =>
    match op reference with
    | .error e => .error (.io e)
    | .ok output =>
      if !output.success then
        .error (.config s!"credential \"{name}\": `op read` failed for its reference")
      else match fromUtf8 output.stdout with
        | none => .error (.config s!"credential \"{name}\": 1Password field is not UTF-8")
        | some text =>
          let token := trimLineEnd text
          if token = "" then .ok none else .ok (some (.bearer token none))

namespace ConfigProvider

def entry (byHost : List (String × CredentialConfig)) (host : String) : Option CredentialConfig :=
  byHost.lookup (String.ofList (host.toList.map Char.toLower))

def unset (entry : CredentialConfig) (host variable_ : String) : DatastoreError :=
  .config (s!"credential \"{entry.name}\" for {host} needs environment variable {variable_}, " ++
    "which is not set")

def fromSource (m : Machine) (entry : CredentialConfig) (host : String) :
    CredentialSource → Except DatastoreError (Option Credential)
  | .env variable_ =>
    match readEnv m variable_ with
    | some secret => .ok (some (.bearer secret none))
    | none => .error (unset entry host variable_)
  | .basic username passwordEnv =>
    match readEnv m passwordEnv with
    | some secret => .ok (some (.basic username secret))
    | none => .error (unset entry host passwordEnv)
  | .netrc => NetrcProvider.credentialFor m host
  | .onePassword reference => onePassword m entry.name reference
  | .unrecognized _ => .ok none

def credentialFor (m : Machine) (byHost : List (String × CredentialConfig)) (host : String) :
    Except DatastoreError (Option Credential) :=
  match entry byHost host with
  | none => .ok none
  | some entry => fromSource m entry host entry.source

/-- An entry is named whether or not its source has anything. -/
def identityFor (byHost : List (String × CredentialConfig)) (host : String) : Option String :=
  (entry byHost host).map fun entry => s!"config:{entry.name}"

end ConfigProvider

/-- The providers and the chains that are built from them. -/
inductive Provider
  | env
  | netrc
  | static (credentials : List (String × Credential))
  | config (byHost : List (String × CredentialConfig))
  | chain (providers : List Provider)

namespace Provider

mutual

def credentialFor (m : Machine) (host : String) : Provider → Except DatastoreError (Option Credential)
  | .env => EnvProvider.credentialFor m.env host
  | .netrc => NetrcProvider.credentialFor m host
  | .static credentials => .ok (credentials.lookup host)
  | .config byHost => ConfigProvider.credentialFor m byHost host
  | .chain providers => firstCredential m host providers

/-- The first credential that one of them has; an error ends the search. -/
def firstCredential (m : Machine) (host : String) :
    List Provider → Except DatastoreError (Option Credential)
  | [] => .ok none
  | provider :: providers => do
    match ← provider.credentialFor m host with
    | some credential => return some credential
    | none => firstCredential m host providers

end

mutual

def identityFor (m : Machine) (host : String) : Provider → Option String
  | .env => EnvProvider.identityFor m.env host
  | .netrc => NetrcProvider.identityFor m host
  | .static credentials => (credentials.lookup host).map fun _ => s!"static:{host}"
  | .config byHost => ConfigProvider.identityFor byHost host
  | .chain providers => firstIdentity m host providers

/-- The first identity that one of them gives. -/
def firstIdentity (m : Machine) (host : String) : List Provider → Option String
  | [] => none
  | provider :: providers =>
    match provider.identityFor m host with
    | some identity => some identity
    | none => firstIdentity m host providers

end

def provider (m : Machine) (p : Provider) : CredentialProvider :=
  ⟨fun host => p.credentialFor m host,fun host => p.identityFor m host⟩

end Provider

/-- What a client fetches upstream with when nothing else is configured. -/
def defaultCredentials : Provider := .chain [.env,.netrc]

/-- The entries of the configuration file come before the default providers. -/
def configuredChain (byHost : List (String × CredentialConfig)) : Provider :=
  .chain [.config byHost,defaultCredentials]

end StarfieldDatastore
