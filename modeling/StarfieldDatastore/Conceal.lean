import StarfieldDatastore.Interleaving.Alike
import StarfieldDatastore.Serving

/-! Secrets and signed URLs. Two instances of the service that differ in them alone do the same and say the
same, as far as the servers that they talk to do not tell them apart. -/
namespace StarfieldDatastore
open Interleaving

/-- What of a URL is not secret. -/
def Url.bare (url : Url) : Url := { url with query := none, fragment := none }

def Url.Alike (url url' : Url) : Prop := url.bare = url'.bare

/-- The same kind of credential with the same expiry date. -/
inductive Credential.Alike : Credential → Credential → Prop
  | basic {user secret user' secret'} : Alike (.basic user secret) (.basic user' secret')
  | bearer {secret secret' expiresAt} : Alike (.bearer secret expiresAt) (.bearer secret' expiresAt)

/-- Credentials for the same hosts, under the same names. -/
structure CredentialProvider.Alike (p p' : CredentialProvider) : Prop where
  credentialFor : ∀ host, Agree (Option.Rel Credential.Alike) (p.credentialFor host) (p'.credentialFor host)
  identityFor : p.identityFor = p'.identityFor

/-- Texts that are URLs but for query and fragment the same, or none for the same reason. -/
def UrlCrate.Alike (U : UrlCrate) (raw raw' : String) : Prop := Agree Url.Alike (U.parse raw) (U.parse raw')

/-- Printing and parsing mixes nothing of query and fragment into the rest. -/
def UrlCrate.Blind (U : UrlCrate) : Prop := ∀ url url', url.Alike url' → U.Alike (U.asStr url) (U.asStr url')

structure Source.Alike (U : UrlCrate) (source source' : Source) : Prop where
  url : U.Alike source.url source'.url
  trustRedirects : source.trustRedirects = source'.trustRedirects

/-- Redirects to URLs that are alike, from wherever they are followed. -/
structure Response.Alike (U : UrlCrate) (response response' : Response) : Prop where
  status : response.status = response'.status
  location : Option.Rel (fun location location' => ∀ url url' : Url, url.Alike url' →
    Agree Url.Alike (U.join url location) (U.join url' location')) response.location response'.location
  etag : response.etag = response'.etag
  reads : response.reads = response'.reads

def Call.sends : Call → Bool
  | .net (.send _ _) => true
  | _ => false

/-- Requests for alike URLs with alike credentials; all else the same. -/
inductive Call.Alike : Call → Call → Prop
  | same {c : Call} (h : c.sends = false) : Alike c c
  | send {url url' : Url} {credential credential' : Option Credential} (hurl : url.Alike url')
      (hcredential : Option.Rel Credential.Alike credential credential') :
      Alike (.net (.send url credential)) (.net (.send url' credential'))

/-- Such calls, with alike responses to the requests. -/
inductive Call.EventAlike (U : UrlCrate) : Program.Event Call Call.Ret → Program.Event Call Call.Ret → Prop
  | same {c : Call} {r : c.Ret} (h : c.sends = false) : EventAlike U ⟨c,r⟩ ⟨c,r⟩
  | send {url url' : Url} {credential credential' : Option Credential} {r r' : Except Unit Response}
      (hurl : url.Alike url') (hcredential : Option.Rel Credential.Alike credential credential')
      (h : Agree (Response.Alike U) r r') :
      EventAlike U ⟨.net (.send url credential),r⟩ ⟨.net (.send url' credential'),r'⟩

def concealing (U : UrlCrate) : Likeness Call Call.Ret := ⟨Call.Alike,Call.EventAlike U⟩

/-- A program that sends nothing does the same beside itself. -/
theorem same_alike {U : UrlCrate} {α : Type} {p : Prog α} (h : p.Only fun c => c.sends = false) :
    Program.Alike (concealing U) Eq p p := by
  refine .of_only (fun c hc => ⟨Call.Alike.same hc,fun r r' he => ?_⟩) h
  cases he with
  | same _ => rfl
  | send => cases hc

theorem same_agree {U : UrlCrate} {α : Type} {op : Op α} (h : op.run.Only fun c => c.sends = false) :
    Program.Alike (concealing U) (Agree Eq) op.run op.run := (same_alike h).mono fun _ _ heq => .of_eq heq

/-- All but the requests is the same. -/
theorem rest_alike {U : UrlCrate} {events events' : List (Program.Event Call Call.Ret)}
    (h : List.Forall₂ (Call.EventAlike U) events events') :
    events.filter (!·.1.sends) = events'.filter (!·.1.sends) := by
  induction h with
  | nil => rfl
  | cons he _ ih =>
    cases he with
    | same hsends => simp only [List.filter_cons,hsends,ih]
    | send => exact ih

section fetch
variable {H : Sha256} {U : UrlCrate} {url url' target target' : Url} {raw raw' : String} {α : Type}

theorem Url.Alike.fields (h : url.Alike url') : url.scheme = url'.scheme ∧ url.username = url'.username ∧
    url.password = url'.password ∧ url.host = url'.host ∧ url.port = url'.port ∧ url.path = url'.path := by
  unfold Url.Alike Url.bare at h
  simpa using h

theorem sanitize_alike (h : U.Alike raw raw') : sanitize U raw = sanitize U raw' := by
  unfold UrlCrate.Alike at h
  unfold sanitize
  generalize U.parse raw = x at h
  generalize U.parse raw' = y at h
  cases h with
  | error e => rfl
  | ok hurl =>
    obtain ⟨hscheme,-,-,hhost,hport,hpath⟩ := hurl.fields
    simp only [hscheme,hhost,hport,hpath]

theorem parseSourceUrl_alike (h : U.Alike raw raw') :
    Agree Url.Alike (parseSourceUrl U raw) (parseSourceUrl U raw') := by
  have hshown := sanitize_alike h
  unfold UrlCrate.Alike at h
  unfold parseSourceUrl
  rw [hshown]
  generalize U.parse raw = x at h
  generalize U.parse raw' = y at h
  cases h with
  | error e => exact .error _
  | ok hurl =>
    obtain ⟨hscheme,hname,hpassword,-⟩ := hurl.fields
    simp only [hscheme,hname,hpassword]
    split
    · exact .error _
    · split
      · exact .error _
      · exact .ok hurl

theorem hostOf_alike (hU : U.Blind) (h : url.Alike url') : hostOf U url = hostOf U url' := by
  obtain ⟨-,-,-,hhost,-⟩ := h.fields
  simp only [hostOf,hhost,sanitize_alike (hU _ _ h)]

theorem validateHop_alike (hU : U.Blind) (h : url.Alike url') (ht : target.Alike target') :
    Agree Url.Alike (validateHop U url target) (validateHop U url' target') := by
  unfold validateHop
  have hchecked := parseSourceUrl_alike (hU _ _ ht)
  generalize parseSourceUrl U (U.asStr target) = x at hchecked
  generalize parseSourceUrl U (U.asStr target') = y at hchecked
  cases hchecked with
  | error e => exact .error e
  | ok hnext =>
    have hfrom := sanitize_alike (hU _ _ h)
    have hto := sanitize_alike (hU _ _ hnext)
    simp only [bind,Except.bind,h.fields.1,hnext.fields.1,hfrom,hto]
    split
    · exact .error _
    · exact .ok hnext

variable {f f' : Fetcher} {source source' : Source} {credential credential' : Option Credential}

/-- Fetchers with providers that are alike. -/
def Fetcher.Alike (f f' : Fetcher) : Prop := Option.Rel CredentialProvider.Alike f.provider f'.provider

theorem lookup_alike (hf : f.Alike f') (host : String) :
    Agree (Option.Rel Credential.Alike) (f.lookup host) (f'.lookup host) := by
  unfold Fetcher.Alike at hf
  unfold Fetcher.lookup
  generalize f.provider = p at hf
  generalize f'.provider = p' at hf
  cases hf with
  | none => exact .ok .none
  | some hp => exact hp.credentialFor host

theorem credentialAt_alike (hf : f.Alike f') (hs : source.Alike U source') (originHost : String)
    (hc : Option.Rel Credential.Alike credential credential') (hop : ℕ) (host : String) :
    Agree (fun x x' => Option.Rel Credential.Alike x.1 x'.1 ∧ x.2 = x'.2)
      (f.credentialAt source originHost credential hop host)
      (f'.credentialAt source' originHost credential' hop host) := by
  unfold Fetcher.credentialAt
  have hfound := lookup_alike hf host
  generalize f.lookup host = x at hfound
  generalize f'.lookup host = y at hfound
  cases hfound with
  | error e => exact .error e
  | ok hcred =>
    cases hcred with
    | some hcred => exact .ok ⟨.some hcred,rfl⟩
    | none =>
      simp only [bind,Except.bind,hs.trustRedirects]
      split
      · exact .ok ⟨hc,rfl⟩
      · exact .ok ⟨.none,rfl⟩

theorem apply_alike (hc : Option.Rel Credential.Alike credential credential') :
    Program.Alike (concealing U) Eq (Fetcher.apply credential) (Fetcher.apply credential') := by
  cases hc with
  | none => exact .done rfl
  | some hc =>
    cases hc with
    | basic => exact .done rfl
    | @bearer secret secret' expiresAt =>
      cases expiresAt with
      | none => exact .done rfl
      | some time =>
        refine .call (Call.Alike.same rfl) fun r r' he => .done ?_
        cases he
        rfl

theorem identityUsed_alike (hf : f.Alike f') (hc : Option.Rel Credential.Alike credential credential') (host : String)
    (before : Option String) : f.identityUsed credential host before = f'.identityUsed credential' host before := by
  unfold Fetcher.Alike at hf
  unfold Fetcher.identityUsed
  generalize f.provider = p at hf
  generalize f'.provider = p' at hf
  cases hc with
  | none => rfl
  | some hc =>
    cases hf with
    | none => rfl
    | some hp => exact congrFun hp.identityFor host

/-- What is to be streamed, and what is known of where it came from. -/
def FoundAlike (U : UrlCrate) : Option (Response × Download) → Option (Response × Download) → Prop :=
  Option.Rel fun x x' => x.1.Alike U x'.1 ∧ x.2 = x'.2

/-- The redirect loop goes the same way. -/
theorem hops_alike (hU : U.Blind) (hf : f.Alike f') (hs : source.Alike U source') (originHost : String)
    (hc : Option.Rel Credential.Alike credential credential') (left : ℕ) :
    ∀ {url url' : Url} {identity : Option String}, url.Alike url' →
      Program.Alike (concealing U) (Agree (FoundAlike U)) (f.hops U source originHost credential left url identity).run
        (f'.hops U source' originHost credential' left url' identity).run := by
  induction left with
  | zero =>
    intro url url' identity h
    unfold Fetcher.hops
    rw [sanitize_alike hs.url]
    exact .done (.error _)
  | succ left ih =>
    intro url url' identity h
    unfold Fetcher.hops
    rw [hostOf_alike hU h]
    refine .bind_run (.done (.of_eq rfl)) fun host _ heq => ?_
    subst heq
    refine .bind_run (.done (credentialAt_alike hf hs originHost hc _ host)) fun x x' hx => ?_
    obtain ⟨cred,credHost⟩ := x
    obtain ⟨cred',credHost'⟩ := x'
    obtain ⟨hcred,rfl⟩ := hx
    refine .bind_run (.lift (apply_alike hcred)) fun looksExpired _ heq => ?_
    subst heq
    rw [identityUsed_alike hf hcred]
    have hsend : Program.Alike (concealing U) (Agree (Response.Alike U)) (net (.send url cred))
        (net (.send url' cred')) := by
      refine .call (Call.Alike.send h hcred) fun r r' he => .done ?_
      cases he with
      | send _ _ hr => exact hr
      | same hsends => cases hsends
    refine .bind_run (.lift hsend) fun r r' hr => ?_
    cases hr with
    | error e => exact .done (.error _)
    | ok hr =>
      rename_i response response'
      obtain ⟨status,location,etag,reads⟩ := response
      obtain ⟨status',location',etag',reads'⟩ := response'
      obtain rfl : status = status' := hr.status
      obtain rfl : etag = etag' := hr.etag
      have hlocation := hr.location
      dsimp only at hlocation ⊢
      split
      · cases hlocation with
        | none => exact .done (.error _)
        | some hjoin =>
          rename_i l l' _
          have htarget := hjoin url url' h
          dsimp only
          generalize U.join url l = x at htarget
          generalize U.join url' l' = y at htarget
          cases htarget with
          | error e => exact .done (.error _)
          | ok htarget => exact .bind_run (.done (validateHop_alike hU h htarget)) fun next next' hnext => ih hnext
      · split
        · cases hcred <;> exact .done (.error _)
        · split
          · exact .done (.ok .none)
          · split
            · exact .done (.error _)
            · exact .done (.ok (.some ⟨hr,rfl⟩))

theorem navigate_alike (hU : U.Blind) (hf : f.Alike f') (hs : source.Alike U source') :
    Program.Alike (concealing U) (Agree (FoundAlike U)) (f.navigate U source).run (f'.navigate U source').run := by
  refine .bind_run (.done (parseSourceUrl_alike hs.url)) fun url url' h => ?_
  rw [hostOf_alike hU h]
  refine .bind_run (.done (.of_eq rfl)) fun host _ heq => ?_
  subst heq
  exact .bind_run (.done (lookup_alike hf host)) fun origin origin' hc => hops_alike hU hf hs host hc maxHops h

/-- What is streamed into the sink, and what is known of it, is the same. -/
theorem request_alike (hU : U.Blind) (hf : f.Alike f') (hs : source.Alike U source') (w : Receiver) :
    Program.Alike (concealing U) Eq (f.request H U source w) (f'.request H U source' w) := by
  refine .bind (navigate_alike hU hf hs) fun out out' hout => ?_
  cases hout with
  | error e => exact .done rfl
  | ok hfound =>
    cases hfound with
    | none => exact .done rfl
    | some hfound =>
      rename_i x x'
      obtain ⟨response,download⟩ := x
      obtain ⟨response',download'⟩ := x'
      obtain ⟨hresponse,rfl⟩ := hfound
      have hreads : response.reads = response'.reads := hresponse.reads
      have hbody : readBody.Only fun c => c.sends = false := .bind (.perform rfl) fun _ => trivial
      dsimp only
      rw [hreads]
      refine .bind (same_alike (copy_only hbody (fun _ _ => rfl) _ _)) fun out _ heq => ?_
      subst heq
      split <;> exact .done rfl

theorem receive_alike {artifact : Artifact} {budget : Option ℕ} {producer producer' : Producer (Option α)}
    (h : ∀ w, Program.Alike (concealing U) Eq (producer w) (producer' w)) :
    Program.Alike (concealing U) Eq (receive H artifact budget producer) (receive H artifact budget producer') := by
  refine .bind (same_alike (.perform rfl)) fun r _ heq => ?_
  subst heq
  cases r with
  | error e => exact .done rfl
  | ok tmp =>
    refine .bind (h _) fun out _ heq => ?_
    subst heq
    obtain ⟨r,rcv⟩ := out
    refine same_alike ?_
    dsimp only
    match rcv.verdict H artifact r with
    | .error e => exact .bind (.perform rfl) fun _ => trivial
    | .ok none => exact .bind (.perform rfl) fun _ => trivial
    | .ok (some info) => trivial

theorem mirrorFetch_alike (hU : U.Blind) (mirror : Mirror) (key : ArtifactKey) (w : Receiver) :
    Program.Alike (concealing U) Eq (mirror.fetch H U key w) (mirror.fetch H U key w) := by
  cases mirror with
  | http base =>
    have hurl : U.Alike ((Mirror.http base).location key) ((Mirror.http base).location key) :=
      Agree.refl (Q := Url.Alike) (fun _ => rfl) _
    have hsource : Source.Alike U (.new ((Mirror.http base).location key)) (.new ((Mirror.http base).location key)) :=
      ⟨hurl,rfl⟩
    have hnone : Fetcher.Alike ⟨none⟩ ⟨none⟩ := .none
    refine .bind (request_alike hU hnone hsource w) fun out _ heq => ?_
    subst heq
    split <;> exact .done rfl
  | s3 bucket pre =>
    refine same_alike (.bind (.perform rfl) fun found => ?_)
    match found with
    | .error code => trivial
    | .ok none => trivial
    | .ok (some reads) =>
      have hread : readS3.Only fun c => c.sends = false := ⟨rfl,fun r => by cases r <;> trivial⟩
      refine .bind (copy_only hread (fun _ _ => rfl) _ _) fun out => ?_
      split <;> trivial

end fetch

/-- Sources that are alike, and the rest the same. -/
def Artifact.Alike (U : UrlCrate) (artifact artifact' : Artifact) : Prop :=
  ∃ sources, List.Forall₂ (Source.Alike U) artifact.sources sources ∧ artifact' = { artifact with sources }

/-- Credentials that are alike, and the rest the same. -/
def Datastore.Alike (ds ds' : Datastore) : Prop := ∃ fetcher, ds.fetcher.Alike fetcher ∧ ds' = { ds with fetcher }

section store
variable {H : Sha256} {U : UrlCrate} {ds ds' : Datastore} {artifact artifact' : Artifact} {source source' : Source}
  {α : Type}

theorem publishReceived_silent {received : Received α} {layer : Layer} {source etag identity : Option String} :
    (Datastore.publishReceived H artifact received layer source etag identity).run.Only fun c => c.sends = false :=
  publishReceived_only rfl fun c entry _ hc => by
    cases c with
    | fs c => rfl
    | net c => cases hc
    | cache c => rfl

theorem fetchFromMirror_alike (hU : U.Blind) (mirror : Mirror) (budget : Option ℕ) :
    Program.Alike (concealing U) Eq (Datastore.fetchFromMirror H U artifact mirror budget)
      (Datastore.fetchFromMirror H U artifact mirror budget) := by
  refine .bind (receive_alike (mirrorFetch_alike hU mirror artifact.key)) fun out _ heq => ?_
  subst heq
  refine same_alike ?_
  match out with
  | (.error e,budget) => trivial
  | (.ok none,budget) => trivial
  | (.ok (some received),budget) => exact .bind publishReceived_silent fun _ => trivial

theorem fetchFromUpstream_alike (hU : U.Blind) (hds : ds.Alike ds') (ha : artifact.Alike U artifact')
    (hs : source.Alike U source') (budget : Option ℕ) :
    Program.Alike (concealing U) Eq (ds.fetchFromUpstream H U artifact source budget)
      (ds'.fetchFromUpstream H U artifact' source' budget) := by
  obtain ⟨f,hf,rfl⟩ := hds
  obtain ⟨sources,-,rfl⟩ := ha
  unfold Datastore.fetchFromUpstream
  rw [sanitize_alike hs.url]
  have hreceive : Program.Alike (concealing U) Eq (receive H artifact budget (ds.fetcher.request H U source))
      (receive H artifact budget (f.request H U source')) := receive_alike (request_alike hU hf hs)
  refine .bind hreceive fun out _ heq => ?_
  subst heq
  refine same_alike ?_
  match out with
  | (.error e,budget) => trivial
  | (.ok none,budget) => trivial
  | (.ok (some received),budget) => exact .bind publishReceived_silent fun _ => trivial

/-- The attempts have the same texts, and they end the same way. -/
theorem trySources_alike (hU : U.Blind) (hds : ds.Alike ds') (ha : artifact.Alike U artifact')
    {sources sources' : List Source} (hs : List.Forall₂ (Source.Alike U) sources sources') :
    ∀ {index : ℕ} {budget : Option ℕ} {attempts : List String},
      Program.Alike (concealing U) (Agree Eq) (ds.trySources H U artifact sources index budget attempts).run
        (ds'.trySources H U artifact' sources' index budget attempts).run := by
  induction hs with
  | nil =>
    intro index budget attempts
    obtain ⟨_,-,rfl⟩ := ha
    exact .done (.error _)
  | cons hs hrest ih =>
    intro index budget attempts
    refine .bind (fetchFromUpstream_alike hU hds ha hs budget) fun out _ heq => ?_
    subst heq
    match out with
    | (.ok (path,bytes),_) => exact .done (.ok rfl)
    | (.error e,budget) =>
      have hlen : artifact'.sources.length = artifact.sources.length := by
        obtain ⟨sources,hsources,rfl⟩ := ha
        exact hsources.length_eq.symm
      dsimp only
      rw [hlen,sanitize_alike hs.url]
      split
      · exact .done (.error _)
      · split
        · exact .done (.error _)
        · exact ih

theorem fetchUpstream_alike (hU : U.Blind) (hds : ds.Alike ds') (ha : artifact.Alike U artifact') (reason : String)
    (budget : Option ℕ) : Program.Alike (concealing U) (Agree Eq) (ds.fetchUpstream H U artifact reason budget).run
      (ds'.fetchUpstream H U artifact' reason budget).run := by
  have htry : ∀ {sources}, List.Forall₂ (Source.Alike U) artifact.sources sources →
      Program.Alike (concealing U) (Agree Eq) (ds.trySources H U artifact artifact.sources 0 budget []).run
        (ds'.trySources H U artifact' sources 0 budget []).run := fun hs => trySources_alike hU hds ha hs
  obtain ⟨f,hf,rfl⟩ := hds
  obtain ⟨sources,hsources,rfl⟩ := ha
  unfold Datastore.fetchUpstream
  have hempty : artifact.sources.isEmpty = sources.isEmpty := by
    generalize artifact.sources = list at hsources
    cases hsources <;> rfl
  rw [hempty]
  dsimp only
  split
  · exact .done (.error _)
  · split
    · exact .done (.error _)
    · exact htry hsources

theorem fetchChain_alike (hU : U.Blind) (hds : ds.Alike ds') (ha : artifact.Alike U artifact')
    (budget : Option ℕ) : Program.Alike (concealing U) (Agree Eq) (ds.fetchChain H U artifact budget).run
      (ds'.fetchChain H U artifact' budget).run := by
  have hupstream := fetchUpstream_alike (H := H) hU hds ha
  obtain ⟨f,hf,rfl⟩ := hds
  obtain ⟨sources,hsources,rfl⟩ := ha
  obtain ⟨layout,mirror,fetcher,allowUpstream,offline,maxBytes⟩ := ds
  cases mirror with
  | none => exact hupstream _ _
  | some mirror =>
    have hmirror : Program.Alike (concealing U) Eq (Datastore.fetchFromMirror H U artifact mirror budget) _ :=
      fetchFromMirror_alike hU mirror budget
    refine .bind hmirror fun out _ heq => ?_
    subst heq
    match out with
    | (.ok (some (path,bytes)),_) => exact .done (.ok rfl)
    | (.ok none,budget) => exact hupstream _ _
    | (.error e,budget) =>
      dsimp only
      split
      · exact .done (.error _)
      · exact hupstream _ _

theorem withLock_alike {name : String} {body body' : Op α}
    (h : Program.Alike (concealing U) (Agree Eq) body.run body'.run) :
    Program.Alike (concealing U) (Agree Eq) (withLock name body).run (withLock name body').run := by
  have hlock : (io (.lock name)).run.Only fun c => c.sends = false := io_only rfl
  refine .bind_run (same_agree hlock) fun _ _ _ => .bind h fun out out' hout => ?_
  exact .bind (same_alike (.perform rfl)) fun _ _ _ => .done hout

/-- A get resolves to the same path from the same layer, or fails with the same error. -/
theorem getWithBudget_alike (hU : U.Blind) (hds : ds.Alike ds') (ha : artifact.Alike U artifact')
    (budget : Option ℕ) : Program.Alike (concealing U) (Agree Eq) (ds.getWithBudget H U artifact budget).run
      (ds'.getWithBudget H U artifact' budget).run := by
  have hchain := fetchChain_alike (H := H) hU hds ha
  obtain ⟨f,hf,rfl⟩ := hds
  obtain ⟨sources,hsources,rfl⟩ := ha
  rw [getWithBudget_eq,getWithBudget_eq]
  have hlocal : (ds.lookupLocal H artifact).run.Only fun c => c.sends = false := lookupLocal_only fun _ _ => rfl
  refine withLock_alike (.bind_run (same_agree hlocal) fun found _ heq => ?_)
  subst heq
  cases found with
  | some found =>
    dsimp only
    split
    · exact .done (.error _)
    · exact .done (.ok rfl)
  | none =>
    dsimp only
    split
    · exact .done (.error _)
    · exact hchain budget

end store

def Manifest.Alike (U : UrlCrate) (m m' : Manifest) : Prop := List.Forall₂ (Artifact.Alike U) m.artifacts m'.artifacts

def Coordinator.Alike (c c' : Coordinator) : Prop := ∃ store, c.store.Alike store ∧ c' = { c with store }

/-- Two configurations of the service that differ in secrets and signed URLs alone. -/
structure Server.Alike (U : UrlCrate) (s s' : Server) : Prop where
  manifest : s.manifest.Alike U s'.manifest
  store : s.store.Alike s'.store
  cache : Option.Rel Coordinator.Alike s.cache s'.cache

section service
variable {H : Sha256} {U : UrlCrate} {ds ds' : Datastore} {artifact artifact' : Artifact} {c c' : Coordinator}
  {s s' : Server} {α β : Type}

theorem get_alike {m m' : Manifest} (h : m.Alike U m') (key : ArtifactKey) :
    Option.Rel (Artifact.Alike U) (m.get key) (m'.get key) := by
  unfold Manifest.Alike at h
  unfold Manifest.get
  generalize m.artifacts = artifacts at h
  generalize m'.artifacts = artifacts' at h
  induction h with
  | nil => exact .none
  | @cons first second rest rest' ha _ ih =>
    have hkey := ha
    obtain ⟨_,_,rfl⟩ := hkey
    simp only [List.find?_cons]
    cases decide (first.key = key) with
    | true => exact .some ha
    | false => exact ih

/-- A worker panics in neither or in both. -/
theorem interruptible_alike {Q : α → β → Prop} {p : Prog α} {p' : Prog β}
    (h : Program.Alike (concealing U) Q p p') :
    Program.Alike (concealing U) (Option.Rel Q) (interruptible p) (interruptible p') := by
  have hunwind : Program.Alike (concealing U) (Option.Rel Q) (do
      cache .unwind
      return none : Prog (Option α)) (do
      cache .unwind
      return none : Prog (Option β)) := .bind (same_alike (.perform rfl)) fun _ _ _ => .done .none
  induction h with
  | done h =>
    refine .bind (same_alike (.perform rfl)) fun panics _ heq => ?_
    subst heq
    cases panics with
    | true => exact hunwind
    | false => exact .done (.some h)
  | call hc _ ih =>
    refine .bind (same_alike (.perform rfl)) fun panics _ heq => ?_
    subst heq
    cases panics with
    | true => exact hunwind
    | false => exact .call hc ih

section maintenance
variable (f : Fetcher)

theorem entries_fetcher : ({ ds with fetcher := f } : Datastore).entries = ds.entries := by
  have hgo : ∀ keys, Datastore.entries.go { ds with fetcher := f } keys = Datastore.entries.go ds keys := by
    intro keys
    induction keys with
    | nil => rfl
    | cons key keys ih =>
      rw [Datastore.entries.go,Datastore.entries.go,ih]
  unfold Datastore.entries
  rw [funext hgo]

theorem digestReferenced_fetcher (digest : String) :
    ({ ds with fetcher := f } : Datastore).digestReferenced digest = ds.digestReferenced digest := by
  unfold Datastore.digestReferenced
  rw [entries_fetcher]

theorem gcEvict_fetcher (maxBytes : ℕ) (sizes : List (String × ℕ)) (entries : List (ArtifactKey × IndexEntry)) :
    ∀ total, ({ ds with fetcher := f } : Datastore).gcEvict H maxBytes sizes entries total =
      ds.gcEvict H maxBytes sizes entries total := by
  have hevict : ∀ key snapshot, ({ ds with fetcher := f } : Datastore).evict H sizes key snapshot =
      ds.evict H sizes key snapshot := by
    intro key snapshot
    unfold Datastore.evict
    simp only [digestReferenced_fetcher]
  induction entries with
  | nil => exact fun _ => rfl
  | cons entry entries ih =>
    intro total
    obtain ⟨key,snapshot⟩ := entry
    simp only [Datastore.gcEvict,hevict,ih]

/-- Maintenance does not look at the credentials. -/
theorem gc_fetcher (maxBytes : ℕ) :
    ({ ds with fetcher := f } : Datastore).gc H maxBytes = ds.gc H maxBytes := by
  unfold Datastore.gc Datastore.gcScan
  simp only [entries_fetcher,gcEvict_fetcher]

end maintenance

theorem finish_alike (h : c.Alike c') : Program.Alike (concealing U) Eq (c.finish H) (c'.finish H) := by
  obtain ⟨-,⟨f,-,rfl⟩,rfl⟩ := h
  have hmaintain : Coordinator.maintain H { c with store := { c.store with fetcher := f } } = c.maintain H := by
    unfold Coordinator.maintain
    simp only [gc_fetcher]
  have hfinish : Coordinator.finish H { c with store := { c.store with fetcher := f } } = c.finish H := by
    unfold Coordinator.finish Coordinator.drain
    simp only [hmaintain]
  rw [hfinish]
  refine same_alike (finish_only (fun _ => rfl) (maintain_reclaims.mono fun c hc => ?_))
  cases c with
  | fs c => rfl
  | net c => cases hc
  | cache c => rfl

theorem admitFill_alike (h : c.Alike c') (expected : Option ℕ) :
    Program.Alike (concealing U) Eq (c.admitFill expected).run (c'.admitFill expected).run := by
  obtain ⟨store,-,rfl⟩ := h
  have hsame : Coordinator.admitFill { c with store } expected = c.admitFill expected := rfl
  have hallowed : (c.admitFill expected).run.Only fun c => c.sends = false :=
    admitFill_only (P := fun c => c.sends = false) (fun _ => rfl) rfl _
  rw [hsame]
  exact same_alike hallowed

theorem upload_alike (hU : U.Blind) (hds : ds.Alike ds') (ha : artifact.Alike U artifact') (limit : Option ℕ) :
    Program.Alike (concealing U) (Agree Eq) (Service.upload H U ds artifact limit).run
      (Service.upload H U ds' artifact' limit).run := by
  have hfetch : Program.Alike (concealing U) (Agree Eq) (Service.fetch H U ds artifact limit).run
      (Service.fetch H U ds' artifact' limit).run := by
    cases limit with
    | none => exact .bind_run (getWithBudget_alike hU hds ha _) fun _ _ heq => .done (.of_eq (by rw [heq]))
    | some limit => exact .bind_run (getWithBudget_alike hU hds ha _) fun _ _ heq => .done (.of_eq (by rw [heq]))
  obtain ⟨f,hf,rfl⟩ := hds
  obtain ⟨sources,hsources,rfl⟩ := ha
  have hhead : (ExceptT.mk (net (.objectHead artifact.key))).run.Only fun c => c.sends = false := .perform rfl
  refine .bind_run (same_agree hhead) fun found _ heq => ?_
  subst heq
  cases found with
  | some info => exact .done (.of_eq rfl)
  | none =>
    refine .bind_run hfetch fun path _ heq => ?_
    subst heq
    refine .bind_run (.lift (same_alike (entry_only rfl fun _ => rfl))) fun entry _ heq => ?_
    subst heq
    cases entry with
    | none => exact .done (.error _)
    | some entry =>
      have hput : ∀ info, (ExceptT.mk (net (.objectPut artifact.key (path.getLastD "") info))).run.Only
          fun c => c.sends = false := fun info => .perform rfl
      exact .bind_run (same_agree (hput _)) fun _ _ _ => .done (.of_eq rfl)

theorem serveMiss_alike (hU : U.Blind) (hds : ds.Alike ds') (ha : artifact.Alike U artifact') (limit : Option ℕ) :
    Program.Alike (concealing U) (Agree Eq) (Service.serveMiss H U ds artifact limit).run
      (Service.serveMiss H U ds' artifact' limit).run := by
  refine .bind_run (upload_alike hU hds ha limit) fun info _ heq => ?_
  subst heq
  obtain ⟨sources,hsources,rfl⟩ := ha
  have hredirect : (Service.redirect artifact info).run.Only fun c => c.sends = false := redirect_only info rfl
  exact same_agree hredirect

theorem miss_alike (hU : U.Blind) (h : s.Alike U s') (ha : artifact.Alike U artifact') :
    Program.Alike (concealing U) Eq (s.miss H U artifact) (s'.miss H U artifact') := by
  have hworker : ∀ limit, Program.Alike (concealing U) Eq
      (interruptible (Service.serveMiss H U s.store artifact limit).run)
      (interruptible (Service.serveMiss H U s'.store artifact' limit).run) := by
    intro limit
    refine (interruptible_alike (serveMiss_alike hU h.store ha limit)).mono fun out out' hout => ?_
    cases hout with
    | none => rfl
    | some hout => rw [hout.eq]
  have hcache := h.cache
  unfold Server.miss
  generalize s.cache = cache at hcache
  generalize s'.cache = cache' at hcache
  cases hcache with
  | none => exact .bind (hworker none) fun _ _ heq => .done (by rw [heq])
  | some hc =>
    have hbytes : artifact'.expectedBytes = artifact.expectedBytes := by
      obtain ⟨_,_,rfl⟩ := ha
      rfl
    dsimp only
    rw [hbytes]
    refine .bind (admitFill_alike hc _) fun admitted _ heq => ?_
    subst heq
    cases admitted with
    | error e => exact .done rfl
    | ok limit =>
      refine .bind (hworker _) fun result _ heq => ?_
      subst heq
      exact .bind (finish_alike hc) fun _ _ _ => .done rfl

theorem artifact_alike (hU : U.Blind) (h : s.Alike U s') (key : String) :
    Program.Alike (concealing U) Eq (s.artifact H U key) (s'.artifact H U key) := by
  unfold Server.artifact
  cases ArtifactKey.new key with
  | error e => exact .done rfl
  | ok key =>
    have hfound := get_alike h.manifest key
    dsimp only
    generalize s.manifest.get key = found at hfound
    generalize s'.manifest.get key = found' at hfound
    cases hfound with
    | none => exact .done rfl
    | @some artifact artifact' ha =>
      have hmiss := miss_alike (H := H) hU h ha
      obtain ⟨sources,hsources,rfl⟩ := ha
      have hhit : (Service.hit artifact).run.Only fun c => c.sends = false := hit_only rfl rfl
      refine .bind (same_alike (interruptible_only (fun _ => rfl) hhit)) fun out _ heq => ?_
      subst heq
      match out with
      | none => exact .done rfl
      | some (.error e) => exact .done rfl
      | some (.ok (some found)) => exact .done rfl
      | some (.ok none) => exact hmiss

/-- Two instances of the service with the same hosts, kinds, expiry dates and identities of credentials, and
with the same sources but for query and fragment: as long as their requests are answered alike, a request for
any artifact gets the same answer. Their requests go to the same places, and all else that they do, to the
disk and to the mirror, is the same. -/
theorem artifact_conceals (hU : U.Blind) (h : s.Alike U s') {key : String} {answer answer' : Answer}
    {events events' : List (Program.Event Call Call.Ret)} (hr : (s.artifact H U key).Finishes events answer)
    (hr' : (s'.artifact H U key).Finishes events' answer')
    (halike : Program.AnsweredAlike (concealing U) events events') :
    answer = answer' ∧ List.Forall₂ (Call.EventAlike U) events events' ∧
      events.filter (!·.1.sends) = events'.filter (!·.1.sends) := by
  obtain ⟨hanswer,hevents⟩ := (artifact_alike hU h key).finishes hr hr' halike
  exact ⟨hanswer,hevents,rest_alike hevents⟩

/-- The same of a get: it returns the same path from the same layer, or the same error. -/
theorem getWithBudget_conceals (hU : U.Blind) (hds : ds.Alike ds') (ha : artifact.Alike U artifact')
    {budget : Option ℕ} {out out' : Except DatastoreError (List String × ResolveOutcome)}
    {events events' : List (Program.Event Call Call.Ret)}
    (hr : (ds.getWithBudget H U artifact budget).run.Finishes events out)
    (hr' : (ds'.getWithBudget H U artifact' budget).run.Finishes events' out')
    (halike : Program.AnsweredAlike (concealing U) events events') :
    out = out' ∧ List.Forall₂ (Call.EventAlike U) events events' ∧
      events.filter (!·.1.sends) = events'.filter (!·.1.sends) := by
  obtain ⟨hout,hevents⟩ := (getWithBudget_alike hU hds ha budget).finishes hr hr' halike
  exact ⟨hout.eq,hevents,rest_alike hevents⟩

end service

/-- Where the query or the fragment of a URL begins. -/
def endsPath (c : Char) : Bool := c = '?' || c = '#'

/-- The `url` crate on the root page of a host, with any query and fragment. -/
def rootOf (host : String) : UrlCrate where
  parse raw :=
    if raw.toList.takeWhile (!endsPath ·) = s!"https://{host}/".toList then
      let rest := raw.toList.dropWhile (!endsPath ·)
      .ok { rootPage host with
        query := if rest.head? = some '?' then some (String.ofList (rest.tail.takeWhile (· ≠ '#'))) else none
        fragment := (rest.dropWhile (· ≠ '#')).tail? |>.map String.ofList }
    else .error "relative URL without a base"
  join _ _ := .error "invalid URL"
  asStr url :=
    (url.scheme ++ "://" ++ url.host.getD "" ++ url.path) ++
      ((url.query.map ("?" ++ ·)).getD "" ++ (url.fragment.map ("#" ++ ·)).getD "")

theorem takeWhile_stops {p : Char → Bool} (l : List Char) {tail : List Char} (h : ∀ c ∈ tail.head?, p c = false) :
    (l++tail).takeWhile p = l.takeWhile p := by
  induction l with
  | nil =>
    cases tail with
    | nil => rfl
    | cons c tail => simp [h c rfl]
  | cons c l ih =>
    cases hc : p c with
    | true => simp [hc,ih]
    | false => simp [hc]

/-- What a printed URL has before its query and fragment. -/
theorem rootOf_base (host : String) (url : Url) : ((rootOf host).asStr url).toList.takeWhile (!endsPath ·) =
    (url.scheme ++ "://" ++ url.host.getD "" ++ url.path).toList.takeWhile (!endsPath ·) := by
  simp only [rootOf]
  rw [String.toList_append]
  apply takeWhile_stops
  cases url.query with
  | none =>
    cases url.fragment with
    | none => simp
    | some text => simp [endsPath]
  | some text => simp [endsPath]

theorem rootOf_blind (host : String) : (rootOf host).Blind := by
  intro url url' h
  obtain ⟨hscheme,-,-,hhost,-,hpath⟩ := h.fields
  have hbase : ((rootOf host).asStr url).toList.takeWhile (!endsPath ·) =
      ((rootOf host).asStr url').toList.takeWhile (!endsPath ·) := by
    rw [rootOf_base,rootOf_base,hscheme,hhost,hpath]
  unfold UrlCrate.Alike
  generalize (rootOf host).asStr url = raw at hbase
  generalize (rootOf host).asStr url' = raw' at hbase
  simp only [rootOf,hbase]
  split
  · exact .ok rfl
  · exact .error _

/-- One host with a token. -/
def tokenOf (host token : String) : CredentialProvider where
  credentialFor host' := .ok (if host' = host then some (.bearer token none) else none)
  identityFor host' := if host' = host then some "static" else none

theorem tokenOf_alike (host token token' : String) : (tokenOf host token).Alike (tokenOf host token') := by
  refine ⟨fun host' => .ok ?_,rfl⟩
  split
  · exact .some .bearer
  · exact .none

/-- A store with that token, and the sample artifact behind a signed URL. -/
def Datastore.holding (token : String) : Datastore := ⟨⟨"/cache"⟩,none,⟨some (tokenOf "a.com" token)⟩,true,false,none⟩

def Artifact.signed (signature : String) : Artifact :=
  { Artifact.redistributable with sources := [.new ("https://a.com/?" ++ signature)] }

/-- A get that the archive refuses, with its steps. -/
def refusal (token signature : String) : List (Program.Event Call Call.Ret) :=
  [⟨.fs (.lock (Layout.keyLockName .sample Artifact.sample.key)),Except.ok ()⟩,
    ⟨.fs (.readSidecar "abc.json"),Except.ok none⟩,⟨.fs .createTmp,Except.ok (0 : ℕ)⟩,
    ⟨.net (.send { rootPage "a.com" with query := some signature } (some (.bearer token none))),
      Except.ok (⟨403,none,none,0⟩ : Response)⟩,
    ⟨.fs (.dropTmp 0),Except.ok ()⟩,
    ⟨.fs (.unlock (Layout.keyLockName .sample Artifact.sample.key)),Except.ok ()⟩]

theorem refusal_alike {U : UrlCrate} (token token' signature signature' : String) :
    List.Forall₂ (Call.EventAlike U) (refusal token signature) (refusal token' signature') :=
  .cons (.same rfl) (.cons (.same rfl) (.cons (.same rfl) (.cons (.send rfl (.some .bearer)
    (.ok ⟨rfl,.none,rfl,rfl⟩)) (.cons (.same rfl) (.cons (.same rfl) .nil)))))

theorem signed_alike : Artifact.Alike (rootOf "a.com") (.signed "k=1") (.signed "k=2") := by
  have hparse : ∀ signature, signature = "k=1" ∨ signature = "k=2" →
      (rootOf "a.com").parse ("https://a.com/?" ++ signature) =
        .ok { rootPage "a.com" with query := some signature } := by
    rintro signature (rfl | rfl) <;> decide
  have hurl : (rootOf "a.com").Alike ("https://a.com/?" ++ "k=1") ("https://a.com/?" ++ "k=2") := by
    unfold UrlCrate.Alike
    rw [hparse _ (.inl rfl),hparse _ (.inr rfl)]
    exact .ok rfl
  exact ⟨(Artifact.signed "k=2").sources,.cons ⟨hurl,rfl⟩ .nil,rfl⟩

theorem holding_alike (token token' : String) : (Datastore.holding token).Alike (.holding token') :=
  ⟨_,.some (tokenOf_alike "a.com" token token'),rfl⟩

/-- A get that the archive refuses. -/
theorem refusal_finishes (token : String) {signature : String} (h : signature = "k=1" ∨ signature = "k=2") :
    ((Datastore.holding token).getWithBudget .sample (rootOf "a.com") (.signed signature) none).run.Finishes
      (refusal token signature) (.error (.credentialRejected "a.com" 403 false)) := by
  rcases h with rfl | rfl
  · exact .call (.call (.call (.call (.call (.call (.done _))))))
  · exact .call (.call (.call (.call (.call (.call (.done _))))))

/-- Two refused gets with different tokens and different signatures. -/
theorem getWithBudget_conceals_refused : ∃ out, ((Datastore.holding "alpha").getWithBudget .sample (rootOf "a.com")
      (.signed "k=1") none).run.Finishes (refusal "alpha" "k=1") out ∧
    ((Datastore.holding "beta").getWithBudget .sample (rootOf "a.com") (.signed "k=2") none).run.Finishes
      (refusal "beta" "k=2") out ∧
    (refusal "alpha" "k=1").filter (!·.1.sends) = (refusal "beta" "k=2").filter (!·.1.sends) := by
  have hfirst := refusal_finishes "alpha" (.inl rfl)
  have hsecond := refusal_finishes "beta" (.inr rfl)
  obtain ⟨-,-,hrest⟩ := getWithBudget_conceals (rootOf_blind "a.com") (holding_alike _ _) signed_alike hfirst hsecond
    (.of_forall₂ (refusal_alike _ _ _ _))
  exact ⟨_,hfirst,hsecond,hrest⟩

/-- The steps of a worker that does not panic. -/
def quietly (events : List (Program.Event Call Call.Ret)) : List (Program.Event Call Call.Ret) :=
  events.flatMap (fun e => [⟨.cache .panics,false⟩,e])++[⟨.cache .panics,false⟩]

theorem quietly_finishes {α : Type} {p : Prog α} {events : List (Program.Event Call Call.Ret)} {a : α}
    (h : p.Finishes events a) : (interruptible p).Finishes (quietly events) (some a) := by
  induction h with
  | done a => exact .call (.done _)
  | call _ ih => exact .call (.call ih)

theorem quietly_alike {U : UrlCrate} {events events' : List (Program.Event Call Call.Ret)}
    (h : List.Forall₂ (Call.EventAlike U) events events') :
    List.Forall₂ (Call.EventAlike U) (quietly events) (quietly events') :=
  List.rel_append (List.rel_flatMap h fun _ _ he => .cons (.same rfl) (.cons he .nil)) (.cons (.same rfl) .nil)

/-- A service for the signed artifact, without a coordinator. -/
def Server.signed (token signature : String) : Server := ⟨⟨[.signed signature]⟩,.holding token,none⟩

/-- A request for it, up to where the archive refuses. -/
def requestRefusal (token signature : String) : List (Program.Event Call Call.Ret) :=
  let head : Program.Event Call Call.Ret := ⟨.net (.objectHead Artifact.sample.key),Except.ok none⟩
  quietly [head]++quietly (head::refusal token signature)

theorem requestRefusal_finishes (token : String) {signature : String} (h : signature = "k=1" ∨ signature = "k=2") :
    ((Server.signed token signature).artifact .sample (rootOf "a.com") "abc").Finishes
      (requestRefusal token signature) (.ofError (.credentialRejected "a.com" 403 false)) := by
  have hfill : (Service.serveMiss .sample (rootOf "a.com") (.holding token) (.signed signature) none).run.Finishes
      (⟨.net (.objectHead Artifact.sample.key),Except.ok none⟩::refusal token signature)
      (.error (.credentialRejected "a.com" 403 false)) :=
    .bind_error (.call (.bind_error (.bind_error (refusal_finishes token h))))
  have hmiss := (quietly_finishes hfill).bind (f := fun result => .done (Answer.ofResult result)) (.done _)
  rw [List.append_nil] at hmiss
  have hhit : (Service.hit (.signed signature)).run.Finishes
      [⟨.net (.objectHead Artifact.sample.key),Except.ok none⟩] (.ok none) := by
    rcases h with rfl | rfl <;> exact .call (.done _)
  exact (quietly_finishes hhit).bind hmiss

theorem artifact_conceals_refused : ∃ answer,
    ((Server.signed "alpha" "k=1").artifact .sample (rootOf "a.com") "abc").Finishes
      (requestRefusal "alpha" "k=1") answer ∧
    ((Server.signed "beta" "k=2").artifact .sample (rootOf "a.com") "abc").Finishes
      (requestRefusal "beta" "k=2") answer ∧
    (requestRefusal "alpha" "k=1").filter (!·.1.sends) = (requestRefusal "beta" "k=2").filter (!·.1.sends) := by
  have hfirst := requestRefusal_finishes "alpha" (.inl rfl)
  have hsecond := requestRefusal_finishes "beta" (.inr rfl)
  have hservers : Server.Alike (rootOf "a.com") (.signed "alpha" "k=1") (.signed "beta" "k=2") :=
    ⟨.cons signed_alike .nil,holding_alike _ _,.none⟩
  have hhead : Call.EventAlike (rootOf "a.com") ⟨.net (.objectHead Artifact.sample.key),Except.ok none⟩
    ⟨.net (.objectHead Artifact.sample.key),Except.ok none⟩ := .same rfl
  have halike : List.Forall₂ (Call.EventAlike (rootOf "a.com")) (requestRefusal "alpha" "k=1")
      (requestRefusal "beta" "k=2") :=
    List.rel_append (quietly_alike (.cons hhead .nil)) (quietly_alike (.cons hhead (refusal_alike _ _ _ _)))
  obtain ⟨-,-,hrest⟩ := artifact_conceals (rootOf_blind "a.com") hservers hfirst hsecond (.of_forall₂ halike)
  exact ⟨_,hfirst,hsecond,hrest⟩

end StarfieldDatastore
