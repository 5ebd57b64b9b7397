import StarfieldDatastore.Budget

/-! Which credential goes where: the requests of the redirect engine against servers that
answer as they please. -/
namespace StarfieldDatastore
open Interleaving

/-- A request as it is sent: its URL and the credential it carries. -/
abbrev Sent := Url × Option Credential

def Event.sent : Event → Option Sent
  | ⟨.net (.send url credential),_⟩ => some (url,credential)
  | _ => none

/-- The requests of a run, in order. -/
def sends (log : List Event) : List Sent := log.filterMap Event.sent

/-- An `http` or `https` URL without userinfo. -/
structure Url.Plain (url : Url) : Prop where
  scheme : url.scheme = "http" ∨ url.scheme = "https"
  username : url.username = ""
  password : url.password = none

/-- The credential held for the host of the source itself. -/
def OriginCredential (U : UrlCrate) (f : Fetcher) (source : Source) (credential : Option Credential) :
    Prop :=
  ∃ url host, U.parse source.url = .ok url ∧ url.host = some host ∧ f.lookup host = .ok credential

/-- The rules for the requests made for one source, in the order in which they are sent. -/
structure Proper (U : UrlCrate) (f : Fetcher) (source : Source) (sent : List Sent) : Prop where
  plain : ∀ s ∈ sent, s.1.Plain
  secure : sent.Pairwise fun s s' => s.1.scheme = "https" → s'.1.scheme = "https"
  upgraded : ∀ url, U.parse source.url = .ok url → url.scheme = "https" →
    ∀ s ∈ sent, s.1.scheme = "https"
  credential : ∀ i s, sent[i]? = some s → ∃ host, s.1.host = some host ∧
    (f.lookup host = .ok s.2 ∨ 0 < i ∧ source.trustRedirects = true ∧ f.lookup host = .ok none ∧
      OriginCredential U f source s.2)

/-- A URL that may be requested next. -/
structure NextUrl (U : UrlCrate) (source : Source) (sent : List Sent) (url : Url) : Prop where
  plain : url.Plain
  secure : ∀ s ∈ sent, s.1.scheme = "https" → url.scheme = "https"
  upgraded : ∀ url', U.parse source.url = .ok url' → url'.scheme = "https" → url.scheme = "https"

section rules
variable {U : UrlCrate} {f : Fetcher} {source : Source} {sent : List Sent} {url target : Url}
  {credential origin : Option Credential} {host originHost : String} {target' : Url}

theorem Proper.nil : Proper U f source [] := ⟨by simp,.nil,by simp,by simp⟩

theorem Proper.append (h : Proper U f source sent) (hurl : NextUrl U source sent url)
    (hhost : url.host = some host) (hcredential : f.lookup host = .ok credential ∨ sent ≠ [] ∧
      source.trustRedirects = true ∧ f.lookup host = .ok none ∧ OriginCredential U f source credential) :
    Proper U f source (sent++[(url,credential)]) := by
  refine ⟨fun s hs => ?_,?_,fun url' hp hscheme s hs => ?_,fun i s hs => ?_⟩
  · rcases List.mem_append.mp hs with hs | hs
    · exact h.plain s hs
    · rw [List.mem_singleton.mp hs]
      exact hurl.plain
  · refine List.pairwise_append.mpr ⟨h.secure,List.pairwise_singleton _ _,fun s hs s' hs' => ?_⟩
    rw [List.mem_singleton.mp hs']
    exact hurl.secure s hs
  · rcases List.mem_append.mp hs with hs | hs
    · exact h.upgraded url' hp hscheme s hs
    · rw [List.mem_singleton.mp hs]
      exact hurl.upgraded url' hp hscheme
  · by_cases hi : i < sent.length
    · rw [List.getElem?_append_left hi] at hs
      exact h.credential i s hs
    · rw [List.getElem?_append_right (by omega),List.getElem?_singleton] at hs
      split at hs
      · rename_i hzero
        cases hs
        refine ⟨host,hhost,hcredential.imp_right fun hf => ⟨?_,hf.2⟩⟩
        have := List.length_pos_of_ne_nil hf.1
        omega
      · cases hs

theorem parseSourceUrl_ok {raw : String} (h : parseSourceUrl U raw = .ok url) :
    U.parse raw = .ok url ∧ url.Plain := by
  unfold parseSourceUrl at h
  split at h
  · cases h
  · rename_i url' hparse
    split at h
    · cases h
    · rename_i huser
      split at h
      · cases h
      · rename_i hscheme
        cases h
        simp only [ne_eq,decide_not,Bool.or_eq_true,Bool.not_eq_true',decide_eq_false_iff_not,
          Option.isSome_iff_ne_none,not_or,not_not] at huser
        refine ⟨hparse,⟨?_,huser.1,by simpa using huser.2⟩⟩
        by_contra hn
        simp only [not_or] at hn
        simp [hn.1,hn.2] at hscheme

theorem hostOf_ok (h : hostOf U url = .ok host) : url.host = some host := by
  unfold hostOf at h
  split at h
  · rename_i hh
    cases h
    exact hh
  · cases h

theorem validateHop_ok (h : validateHop U url target = .ok target') :
    target'.Plain ∧ (url.scheme = "https" → target'.scheme = "https") := by
  unfold validateHop at h
  cases hparse : parseSourceUrl U (U.asStr target) with
  | error e =>
    rw [hparse] at h
    cases h
  | ok checked =>
    rw [hparse] at h
    simp only [bind,Except.bind] at h
    split at h
    · cases h
    · rename_i hdown
      cases h
      refine ⟨(parseSourceUrl_ok hparse).2,fun hs => ?_⟩
      simpa [hs] using hdown

/-- The credential of a hop is the one held for its host, or the one of the original host
where that is allowed. -/
theorem credentialAt_ok {hop : ℕ} {credentialHost : String}
    (h : f.credentialAt source originHost origin hop host = .ok (credential,credentialHost)) :
    f.lookup host = .ok credential ∨ 0 < hop ∧ source.trustRedirects = true ∧
      f.lookup host = .ok none ∧ credential = origin := by
  unfold Fetcher.credentialAt at h
  cases hl : f.lookup host with
  | error e =>
    rw [hl] at h
    cases h
  | ok found =>
    rw [hl] at h
    cases found with
    | some c =>
      cases h
      exact .inl rfl
    | none =>
      simp only [bind,Except.bind] at h
      split at h
      · rename_i htrust
        cases h
        simp only [Bool.and_eq_true,decide_eq_true_eq] at htrust
        exact .inr ⟨htrust.1,htrust.2,rfl,rfl⟩
      · cases h
        exact .inl rfl

end rules

/-- Any replies at all, with the rules for requests kept at every moment. -/
def watching (U : UrlCrate) (f : Fetcher) (source : Source) :
    Setting Call Call.Ret (List Event) := .logged fun log => Proper U f source (sends log)

section watching
variable {U : UrlCrate} {f : Fetcher} {source : Source} {H : Sha256} {log : List Event}
  {originHost : String} {origin : Option Credential}

theorem sends_append (log : List Event) (e : Event) :
    sends (log++[e]) = sends log ++ e.sent.toList := by
  simp only [sends,List.filterMap_append,List.filterMap_cons,List.filterMap_nil]
  cases e.sent <;> rfl

/-- A program that sends no request leaves the requests as they are. -/
theorem holds_silent {α : Type} {p : Prog α} (h : Proper U f source (sends log))
    (hp : p.Only fun c => ∀ r, Event.sent ⟨c,r⟩ = none) :
    p.Holds (watching U f source) (fun _ log' => sends log' = sends log) log := by
  refine .of_only hp (fun s s' hr hs => hr ▸ hs) (fun c s r s' hc hs hstep => ?_) rfl
  have hstep : s' = s++[⟨c,r⟩] := hstep
  subst hstep
  have hsame : sends (s++[⟨c,r⟩]) = sends log := by
    rw [sends_append,hc r,hs]
    exact List.append_nil _
  exact ⟨show Proper U f source (sends _) from hsame ▸ h,hsame⟩

theorem hops_holds (horigin : OriginCredential U f source origin) (left : ℕ) :
    ∀ {url identity log}, Proper U f source (sends log) → (sends log).length+left = maxHops →
      NextUrl U source (sends log) url →
      (f.hops U source originHost origin left url identity).run.Holds (watching U f source)
        (fun _ log => Proper U f source (sends log)) log := by
  induction left with
  | zero =>
    rintro url identity log h - - log' rfl
    exact h
  | succ left ih =>
    intro url identity log h hleft hurl
    unfold Fetcher.hops
    refine .except_bind (fun host hhost => ?_) (fun e _ log₁ h₁ => h₁ ▸ h)
    refine .except_bind (fun found hfound => ?_) (fun e _ log₁ h₁ => h₁ ▸ h)
    obtain ⟨credential,credentialHost⟩ := found
    refine .bind_run (.bind ((holds_silent h (apply_only (fun _ => rfl) credential)).mono
      fun looksExpired log₁ hsame => ?_))
    rintro log₂ rfl
    refine .bind_run (.perform_bind fun log₂ hlog₂ r log₃ hlog₃ => ?_)
    obtain rfl : log₁ = log₂ := hlog₂
    have hsent : sends log₃ = sends log++[(url,credential)] := by
      rw [show log₃ = log₁++[⟨.net (.send url credential),r⟩] from hlog₃,sends_append,hsame]
      rfl
    have hproper : Proper U f source (sends log₃) := by
      rw [hsent]
      refine h.append hurl (hostOf_ok hhost) ((credentialAt_ok hfound).imp_right fun hf => ?_)
      obtain ⟨hpos,htrust,hnone,rfl⟩ := hf
      refine ⟨fun hnil => ?_,htrust,hnone,horigin⟩
      rw [hnil] at hleft
      simp only [List.length_nil] at hleft
      omega
    refine ⟨hproper,?_⟩
    rintro log₄ rfl
    have stopped : ∀ log₅, log₃ = log₅ → Proper U f source (sends log₅) := fun _ h₅ => h₅ ▸ hproper
    cases r with
    | error e => exact stopped
    | ok response =>
      simp only
      split
      · split
        · exact stopped
        · split
          · exact stopped
          · refine .except_bind (fun target htarget => ?_) (fun e _ log₅ h₅ => stopped log₅ h₅)
            obtain ⟨hplain,hsecure⟩ := validateHop_ok htarget
            refine ih hproper (by rw [hsent]; simp; omega) ⟨hplain,fun s hs => ?_,?_⟩
            · rw [hsent] at hs
              rcases List.mem_append.mp hs with hs | hs
              · exact fun hscheme => hsecure (hurl.secure s hs hscheme)
              · rw [List.mem_singleton.mp hs]
                exact hsecure
            · exact fun url' hp hscheme => hsecure (hurl.upgraded url' hp hscheme)
      · repeat' split
        all_goals exact stopped

theorem navigate_holds : (f.navigate U source).run.Holds (watching U f source)
    (fun _ log => Proper U f source (sends log)) [] := by
  have hnil : Proper U f source (sends []) := .nil
  refine .except_bind (fun url hurl => ?_) (fun e _ log₁ h₁ => h₁ ▸ hnil)
  refine .except_bind (fun host hhost => ?_) (fun e _ log₁ h₁ => h₁ ▸ hnil)
  refine .except_bind (fun origin horigin => ?_) (fun e _ log₁ h₁ => h₁ ▸ hnil)
  obtain ⟨hparse,hplain⟩ := parseSourceUrl_ok hurl
  refine hops_holds ⟨url,host,hparse,hostOf_ok hhost,horigin⟩ maxHops hnil (by simp [sends])
    ⟨hplain,by simp [sends],fun url' hp hscheme => ?_⟩
  rw [hparse] at hp
  cases hp
  exact hscheme

theorem request_holds (rcv : Receiver) : (f.request H U source rcv).Holds (watching U f source)
    (fun _ log => Proper U f source (sends log)) [] := by
  refine .bind (navigate_holds.mono fun r log h => ?_)
  match r with
  | .error e => exact fun log₁ h₁ => h₁ ▸ h
  | .ok none => exact fun log₁ h₁ => h₁ ▸ h
  | .ok (some (response,download)) =>
    have hread : readBody.Only fun c => ∀ r, Event.sent ⟨c,r⟩ = none :=
      ⟨fun _ => rfl,fun _ => trivial⟩
    refine .bind ((holds_silent h (copy_only hread (fun _ _ _ => rfl) _ rcv)).mono fun out log₁ hsame => ?_)
    have h₁ : Proper U f source (sends log₁) := hsame ▸ h
    obtain ⟨r,rcv'⟩ := out
    cases r with
    | error e => exact fun log₂ h₂ => h₂ ▸ h₁
    | ok done => exact fun log₂ h₂ => h₂ ▸ h₁

/-- However the servers answer, every request for a source keeps the rules. -/
theorem request_proper {rcv : Receiver} (h : (f.request H U source rcv).Trace log) :
    Proper U f source (sends log) := by
  simpa using (request_holds rcv).log_of_trace Proper.nil h

/-- The credentials that leave with the requests for one source, for any provider and any
answers: without `trust_redirects` each host gets its own; with it the only other one is
that of the original host, after the first hop, for hosts that have none; without a
provider there are none. Every URL is plain, and there is no way back from `https`. -/
theorem request_credentials (H : Sha256) (U : UrlCrate) (f : Fetcher) (source : Source)
    (rcv : Receiver) (log : List Event) (h : (f.request H U source rcv).Trace log) :
    (source.trustRedirects = false → ∀ s ∈ sends log,
      ∃ host, s.1.host = some host ∧ f.lookup host = .ok s.2) ∧
    (source.trustRedirects = true → ∀ i s, (sends log)[i]? = some s →
      ∃ host, s.1.host = some host ∧ (f.lookup host = .ok s.2 ∨
        0 < i ∧ f.lookup host = .ok none ∧ OriginCredential U f source s.2)) ∧
    (f.provider = none → ∀ s ∈ sends log, s.2 = none) ∧
    (∀ s ∈ sends log, (s.1.scheme = "http" ∨ s.1.scheme = "https") ∧ s.1.username = "" ∧
      s.1.password = none) ∧
    ((sends log).Pairwise fun s s' => s.1.scheme = "https" → s'.1.scheme = "https") ∧
    ∀ url, U.parse source.url = .ok url → url.scheme = "https" →
      ∀ s ∈ sends log, s.1.scheme = "https" := by
  have hproper := request_proper h
  refine ⟨fun htrust s hs => ?_,fun _ i s hs => ?_,fun hnone s hs => ?_,
    fun s hs => ⟨(hproper.plain s hs).1,(hproper.plain s hs).2,(hproper.plain s hs).3⟩,
    hproper.secure,hproper.upgraded⟩
  · obtain ⟨i,hi⟩ := List.mem_iff_getElem?.mp hs
    obtain ⟨host,hhost,hown | ⟨-,htrust',-⟩⟩ := hproper.credential i s hi
    · exact ⟨host,hhost,hown⟩
    · rw [htrust] at htrust'
      cases htrust'
  · obtain ⟨host,hhost,hc⟩ := hproper.credential i s hs
    exact ⟨host,hhost,hc.imp_right fun hf => ⟨hf.1,hf.2.2⟩⟩
  · have hlookup : ∀ host, f.lookup host = .ok none := fun host => by simp [Fetcher.lookup,hnone]
    obtain ⟨i,hi⟩ := List.mem_iff_getElem?.mp hs
    obtain ⟨host,-,hown | ⟨-,-,-,url,host',-,-,hforward⟩⟩ := hproper.credential i s hi
    · rw [hlookup] at hown
      exact (Except.ok.inj hown).symm
    · rw [hlookup] at hforward
      exact (Except.ok.inj hforward).symm

end watching

/-- An environment with one token in it. -/
def oneToken (name token : String) : Environment :=
  fun other => if other = name then .value token else .notPresent

/-- The first host redirects to the second. -/
def redirected (a b : String) (first second : Option Credential) : List Event :=
  [⟨.net (.send (rootPage a) first),.ok ⟨302,some s!"https://{b}/",none,0⟩⟩,
    ⟨.net (.send (rootPage b) second),.error ()⟩]

/-- With a redirect from one host to the other, each gets what is held for it. -/
theorem request_credentials_redirected :
    let f : Fetcher := ⟨some (envProvider (oneToken "STARFIELD_TOKEN_A_COM" "t"))⟩
    let log := redirected "a.com" "b.org" (some (.bearer "t" none)) none
    (f.request .sample (twoHosts "a.com" "b.org") (.new "https://a.com/")
      (.new 0 .none none)).Trace log ∧
    ∀ s ∈ sends log, ∃ host, s.1.host = some host ∧ f.lookup host = .ok s.2 := by
  intro f log
  have h : (f.request .sample (twoHosts "a.com" "b.org") (.new "https://a.com/")
      (.new 0 .none none)).Trace log := .call (.call (.start _))
  exact ⟨h,(request_credentials _ _ _ _ _ _ h).1 rfl⟩

/-- The token of one host does not reach another host, along any chain of redirects, as long
as the two differ in more than punctuation. -/
theorem envProvider_separates (a b : String) (ha : EnvProvider.lowercase a)
    (hb : EnvProvider.lowercase b) (hab : EnvProvider.masked a ≠ EnvProvider.masked b) :
    (∀ env v, EnvProvider.credentialFor (Function.update env (EnvProvider.variableOf a) v) b =
      EnvProvider.credentialFor env b) ∧
    ∀ H U env source rcv log v, source.trustRedirects = false →
      (Fetcher.request H U ⟨some (envProvider env)⟩ source rcv).Trace log →
      ∀ s ∈ sends log, s.1.host = some b →
        EnvProvider.credentialFor (Function.update env (EnvProvider.variableOf a) v) b = .ok s.2 := by
  have hvariable : EnvProvider.variableOf a ≠ EnvProvider.variableOf b :=
    fun h => hab ((EnvProvider.variableOf_eq_iff ha hb).mp h)
  refine ⟨fun env v => EnvProvider.credentialFor_update hvariable,?_⟩
  intro H U env source rcv log v htrust hlog s hs hhost
  obtain ⟨i,hi⟩ := List.mem_iff_getElem?.mp hs
  obtain ⟨host,hhost',hown | ⟨-,htrust',-⟩⟩ := (request_proper hlog).credential i s hi
  · rw [hhost] at hhost'
    cases hhost'
    rw [EnvProvider.credentialFor_update hvariable]
    exact hown
  · rw [htrust] at htrust'
    cases htrust'

theorem envProvider_separates_hosts :
    EnvProvider.credentialFor (Function.update (oneToken "STARFIELD_TOKEN_B_ORG" "t")
      (EnvProvider.variableOf "a.com") (.value "s")) "b.org" = .ok (some (.bearer "t" none)) :=
  (envProvider_separates "a.com" "b.org" (by decide) (by decide) (by decide)).1 _ _

/-- Hosts that differ in punctuation share a variable, and a redirect from one to the other
takes the token along. -/
theorem envProvider_confuses :
    let env := oneToken "STARFIELD_TOKEN_A_B_COM" "t"
    let token : Option Credential := some (.bearer "t" none)
    EnvProvider.lowercase "a-b.com" ∧ EnvProvider.lowercase "a.b.com" ∧
    "a-b.com" ≠ "a.b.com" ∧ EnvProvider.variableOf "a-b.com" = "STARFIELD_TOKEN_A_B_COM" ∧
    EnvProvider.credentialFor env "a-b.com" = .ok token ∧
    EnvProvider.credentialFor env "a.b.com" = .ok token ∧
    EnvProvider.credentialFor (fun _ => .notPresent) "a.b.com" = .ok none ∧
    (Source.new "https://a-b.com/").trustRedirects = false ∧
    ∃ log, (Fetcher.request .sample (twoHosts "a-b.com" "a.b.com") ⟨some (envProvider env)⟩
      (.new "https://a-b.com/") (.new 0 .none none)).Trace log ∧
      (rootPage "a.b.com",token) ∈ sends log :=
  ⟨by decide,by decide,by decide,by decide,by decide,by decide,by decide,rfl,
    redirected "a-b.com" "a.b.com" (some (.bearer "t" none)) (some (.bearer "t" none)),
    .call (.call (.start _)),by decide⟩

end StarfieldDatastore
