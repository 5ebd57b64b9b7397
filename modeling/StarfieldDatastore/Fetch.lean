import StarfieldDatastore.Receiver
import StarfieldDatastore.Credential

/-! The HTTP fetch engine: redirects are followed by hand, so that the credential rules
apply to each hop. -/
namespace StarfieldDatastore
open Interleaving

/-- The `url` crate: parsing, resolving a relative reference, and printing. -/
structure UrlCrate where
  parse : String → Except String Url
  join : Url → String → Except String Url
  asStr : Url → String

/-- The root page of a host. -/
def rootPage (host : String) : Url := ⟨"https","",none,some host,none,"/",none,none⟩

/-- The `url` crate on the root pages of two hosts. -/
def twoHosts (a b : String) : UrlCrate where
  parse raw :=
    if raw = s!"https://{a}/" then .ok (rootPage a)
    else if raw = s!"https://{b}/" then .ok (rootPage b)
    else .error "relative URL without a base"
  join _ raw := if raw = s!"https://{b}/" then .ok (rootPage b) else .error "invalid URL"
  asStr url :=
    let host := url.host.getD ""
    s!"{url.scheme}://{host}{url.path}"

def maxHops : ℕ := 10

/-- Origin and path only: no query, no fragment, no userinfo. -/
def sanitize (U : UrlCrate) (raw : String) : String :=
  match U.parse raw with
  | .error _ => "<unparseable url>"
  | .ok url =>
    match url.host, url.port with
    | some host, some port => s!"{url.scheme}://{host}:{port}{url.path}"
    | some host, none => s!"{url.scheme}://{host}{url.path}"
    | none, _ => s!"{url.scheme}:{url.path}"

def parseSourceUrl (U : UrlCrate) (raw : String) : Except DatastoreError Url :=
  match U.parse raw with
  | .error e => .error (.config s!"invalid source URL: {e}")
  | .ok url =>
    if url.username ≠ "" || url.password.isSome then
      .error (.config (s!"source URL {sanitize U raw} carries userinfo; " ++
        "supply credentials through a CredentialProvider"))
    else if url.scheme ≠ "http" && url.scheme ≠ "https" then
      .error (.config s!"source URL {sanitize U raw} is not http(s)")
    else .ok url

def hostOf (U : UrlCrate) (url : Url) : Except DatastoreError String :=
  match url.host with
  | some host => .ok host
  | none => .error (.config s!"URL {sanitize U (U.asStr url)} has no host")

/-- A redirect target is held to the rules of a source URL, and may not downgrade. -/
def validateHop (U : UrlCrate) (source target : Url) : Except DatastoreError Url := do
  let checked ← parseSourceUrl U (U.asStr target)
  if source.scheme = "https" && checked.scheme ≠ "https" then
    .error (.mirror (s!"{sanitize U (U.asStr source)} redirected to plaintext " ++
      s!"{sanitize U (U.asStr checked)}; refusing the downgrade"))
  else .ok checked

structure Download where
  etag : Option String
  /-- The identity of the credential that was actually sent, if any. -/
  providerIdentity : Option String
  deriving DecidableEq, Repr

structure Fetcher where
  provider : Option CredentialProvider

namespace Fetcher

def lookup (f : Fetcher) (host : String) : Except DatastoreError (Option Credential) :=
  match f.provider with
  | some p => p.credentialFor host
  | none => .ok none

/-- The credential to send to `host`, and the host whose credential it is. -/
def credentialAt (f : Fetcher) (source : Source) (originHost : String)
    (origin : Option Credential) (hop : ℕ) (host : String) :
    Except DatastoreError (Option Credential × String) := do
  match ← f.lookup host with
  | some c => return (some c,host)
  | none =>
    if hop > 0 && source.trustRedirects then return (origin,originHost) else return (none,host)

/-- Whether the credential looks expired; the clock is read only for an expiry date. -/
def apply : Option Credential → Prog Bool
  | some (.bearer _ (some at_)) => net .systemNow >>= fun now => .done (at_ ≤ now)
  | _ => .done false

def identityUsed (f : Fetcher) (credential : Option Credential) (host : String)
    (before : Option String) : Option String :=
  match credential, f.provider with
  | some _, some p => p.identityFor host
  | _, _ => before

/-- Follows redirects until a response that has a body to stream; `none` is a definite
404. `left` hops remain. -/
def hops (U : UrlCrate) (f : Fetcher) (source : Source) (originHost : String)
    (origin : Option Credential) : ℕ → Url → Option String → Op (Option (Response × Download))
  | 0, _, _ => throw (.mirror s!"more than {maxHops} redirects from {sanitize U source.url}")
  | left+1, url, identity => do
    let host ← hostOf U url
    let (credential,credentialHost) ←
      f.credentialAt source originHost origin (maxHops-(left+1)) host
    let looksExpired ← apply credential
    let identity := f.identityUsed credential credentialHost identity
    match ← net (.send url credential) with
    | .error () => throw .http
    | .ok response =>
      if 300 ≤ response.status && response.status < 400 then
        match response.location with
        | none => throw (.mirror s!"{host} redirected without a Location header")
        | some location =>
          match U.join url location with
          | .error e => throw (.mirror s!"bad redirect from {host}: {e}")
          | .ok target =>
            let url ← validateHop U url target
            hops U f source originHost origin left url identity
      else if response.status = 401 || response.status = 403 then
        if credential.isSome then throw (.credentialRejected host response.status looksExpired)
        else throw (.noCredential host)
      else if response.status = 404 then return none
      else if 400 ≤ response.status && response.status < 600 then throw .http
      else return some (response,⟨response.etag,identity⟩)

/-- The requests of `request`, up to the response whose body is streamed. -/
def navigate (U : UrlCrate) (f : Fetcher) (source : Source) :
    Op (Option (Response × Download)) := do
  let url ← parseSourceUrl U source.url
  let originHost ← hostOf U url
  let origin ← f.lookup originHost
  hops U f source originHost origin maxHops url none

/-- GET `source`, streaming the body into the sink. -/
def request (H : Sha256) (U : UrlCrate) (f : Fetcher) (source : Source) :
    Producer (Option Download) := fun w => do
  match ← (f.navigate U source).run with
  | .error e => return (.error e,w)
  | .ok none => return (.ok none,w)
  | .ok (some (response,download)) =>
    match ← copy H readBody response.reads w with
    | (.error e,w) => return (.error e,w)
    | (.ok (),w) => return (.ok (some download),w)

end Fetcher

/-- The read side of a mirror. The base URL of `http` is sanitised when it is opened. -/
inductive Mirror
  | http (base : String)
  | s3 (bucket : String) (pre : String)
  deriving DecidableEq, Repr

/-- The error of a failed S3 request; odd error codes are not shown. -/
def serviceError (bucket pre : String) (key : ArtifactKey) (operation : String)
    (code : Option String) : DatastoreError :=
  let shown := (code.filter fun s => s.utf8ByteSize < 80 && s.toList.all Char.isAlphanum).getD
    "request failed"
  .mirror s!"S3 {operation} s3://{bucket}/{key.mirrorPath pre}: {shown}"

namespace Mirror

def location : Mirror → ArtifactKey → String
  | .http base, key => s!"{base}/artifact/{key.text}"
  | .s3 bucket pre, key => s!"s3://{bucket}/{key.mirrorPath pre}"

/-- The HTTP mirror asks with no provider at all; a refusal is a mirror error. -/
def refused : DatastoreError → DatastoreError
  | .noCredential host => .mirror (s!"{host} refused the request (HTTP 401/403); " ++
      "the mirror is expected to need no credentials")
  | e => e

/-- Streams the object stored under `key` into the sink; `none` when there is none. -/
def fetch (H : Sha256) (U : UrlCrate) : Mirror → ArtifactKey → Producer (Option Unit)
  | .http base, key, w => do
    match ← Fetcher.request H U ⟨none⟩ (.new ((Mirror.http base).location key)) w with
    | (.ok found,w) => return (.ok (found.map fun _ => ()),w)
    | (.error e,w) => return (.error (refused e),w)
  | .s3 bucket pre, key, w => do
    match ← net (.s3Get (key.mirrorPath pre)) with
    | .error code => return (.error (serviceError bucket pre key "GET" code),w)
    | .ok none => return (.ok none,w)
    | .ok (some reads) =>
      match ← copy H readS3 reads w with
      | (.error e,w) => return (.error e,w)
      | (.ok (),w) => return (.ok (some ()),w)

end Mirror
end StarfieldDatastore
