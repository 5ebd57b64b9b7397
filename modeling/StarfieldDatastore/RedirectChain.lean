import StarfieldDatastore.Redirect

/-! Chains of redirects: how many of them are followed, and what becomes of the body at the
end of one. -/
namespace StarfieldDatastore
open Interleaving

def Event.answer : Event → Option (Except Unit Response)
  | ⟨.net (.send _ _),r⟩ => some r
  | _ => none

/-- The answers to the requests of a run, in order. -/
def answers (log : List Event) : List (Except Unit Response) := log.filterMap Event.answer

def Event.brought : Event → Bytes
  | ⟨.net .readBody,.ok chunk⟩ => chunk
  | _ => []

/-- The body as the connection brings it. -/
def delivered (log : List Event) : Bytes := log.flatMap Event.brought

def Event.put : Event → Bytes
  | ⟨.fs (.appendTmp _ buf),.ok ()⟩ => buf
  | _ => []

/-- What has got into the sink. -/
def sunk (log : List Event) : Bytes := log.flatMap Event.put

/-- A read of the body or a write to the sink that does not fail. -/
def Event.Smooth : Event → Prop
  | ⟨.net .readBody,r⟩ => ∃ chunk, r = .ok chunk
  | ⟨.fs (.appendTmp _ _),r⟩ => r = .ok ()
  | _ => True

/-- A sink that takes whatever it is given. -/
structure Receiver.Open (rcv : Receiver) : Prop where
  budget : rcv.budget = none
  rejected : rcv.rejected = none
  prefixChecked : rcv.prefixChecked = true

/-- A host that the provider has an answer for. -/
def Answered (f : Fetcher) (url : Url) : Prop :=
  ∃ host credential, url.host = some host ∧ f.lookup host = .ok credential

/-- What servers answer that send the requests for `url` through `r` redirects, each to a
valid target, and then a body. -/
inductive Chain (U : UrlCrate) (f : Fetcher) : Url → ℕ → List Response → Prop
  | body {url response} (hurl : Answered f url) (hstatus : response.status = 200) :
      Chain U f url 0 [response]
  | redirect {url target next r location response responses} (hurl : Answered f url)
      (hstatus : 300 ≤ response.status ∧ response.status < 400)
      (hlocation : response.location = some location)
      (hjoin : U.join url location = .ok target) (hparse : U.parse (U.asStr target) = .ok next)
      (hplain : next.Plain) (hsecure : url.scheme = "https" → next.scheme = "https")
      (hnext : Chain U f next r responses) :
      Chain U f url (r+1) (response::responses)

section chain
variable {U : UrlCrate} {f : Fetcher} {source : Source} {url target next : Url}
  {originHost host : String} {origin credential : Option Credential}

theorem parseSourceUrl_plain {raw : String} (hparse : U.parse raw = .ok url) (hplain : url.Plain) :
    parseSourceUrl U raw = .ok url := by
  rw [parseSourceUrl,hparse]
  simp only [hplain.username,hplain.password]
  obtain h|h := hplain.scheme <;> simp [h]

theorem hostOf_some (h : url.host = some host) : hostOf U url = .ok host := by
  rw [hostOf,h]

theorem validateHop_plain (hparse : U.parse (U.asStr target) = .ok next) (hplain : next.Plain)
    (hsecure : url.scheme = "https" → next.scheme = "https") :
    validateHop U url target = .ok next := by
  rw [validateHop,parseSourceUrl_plain hparse hplain]
  simp only [bind,Except.bind]
  by_cases h : url.scheme = "https"
  · simp [hsecure h]
  · simp [h]

theorem credentialAt_answered (hop : ℕ) (h : f.lookup host = .ok credential) :
    ∃ found, f.credentialAt source originHost origin hop host = .ok found := by
  rw [Fetcher.credentialAt,h]
  cases credential with
  | some c => exact ⟨_,rfl⟩
  | none =>
    simp only [bind,Except.bind]
    split <;> exact ⟨_,rfl⟩

theorem finishes_ok {α β : Type} {x : Except DatastoreError α} {a : α} {k : α → Op β}
    {log : List Event} {r : Except DatastoreError β} (hx : x = .ok a)
    (h : ((liftM x : Op α) >>= k).run.Finishes log r) : (k a).run.Finishes log r := by
  subst hx
  exact h

theorem answers_append (log log' : List Event) : answers (log++log') = answers log++answers log' :=
  List.filterMap_append

theorem answers_silent {α : Type} {p : Prog α} {log : List Event} {a : α}
    (hp : p.Only fun c => ∀ r, Event.answer ⟨c,r⟩ = none) (h : p.Finishes log a) :
    answers log = [] := by
  refine List.filterMap_eq_nil_iff.mpr fun e he => ?_
  exact hp.of_finishes h e he e.2

/-- One request of the engine: what it does with a body, and with a redirect. -/
theorem hops_request {left : ℕ} {identity : Option String} {log : List Event}
    {result : Except DatastoreError (Option (Response × Download))} (hurl : Answered f url)
    (h : (f.hops U source originHost origin (left+1) url identity).run.Finishes log result) :
    ∃ reply rest identity', answers log = reply::answers rest ∧
      ∀ response, reply = .ok response →
        (response.status = 200 → rest = [] ∧
          result = .ok (some (response,⟨response.etag,identity'⟩))) ∧
        (300 ≤ response.status ∧ response.status < 400 → ∀ location target next,
          response.location = some location → U.join url location = .ok target →
          validateHop U url target = .ok next →
          (f.hops U source originHost origin left next identity').run.Finishes rest result) := by
  obtain ⟨host,credential,hhost,hlookup⟩ := hurl
  obtain ⟨⟨sent,credentialHost⟩,hfound⟩ :
      ∃ found, f.credentialAt source originHost origin (maxHops-(left+1)) host = .ok found :=
    credentialAt_answered _ hlookup
  rw [Fetcher.hops] at h
  replace h := finishes_ok (hostOf_some hhost) h
  replace h := finishes_ok hfound h
  obtain ⟨log₁,expired,log₂,rfl,happly,h⟩ := Program.Finishes.bind_cases h
  obtain ⟨log₀,looksExpired,_,rfl,hclock,hlift⟩ :=
    Program.Finishes.bind_cases (p := Fetcher.apply sent) happly
  cases hlift
  have hsilent := answers_silent (apply_only (fun _ => rfl) sent) hclock
  cases h with
  | @call _ _ reply rest _ h =>
    refine ⟨reply,rest,f.identityUsed sent credentialHost identity,?_,?_⟩
    · rw [List.append_nil,answers_append,hsilent]
      rfl
    · rintro response rfl
      refine ⟨fun hstatus => ?_,fun hstatus location target next hlocation hjoin hvalid => ?_⟩
      · simp only [Program.bind,ExceptT.bindCont,Function.comp_apply,hstatus,Nat.reduceLeDiff,
          Nat.reduceEqDiff,decide_false,decide_true,Bool.false_and,Bool.false_or,
          Bool.false_eq_true,if_false,Nat.reduceLT] at h
        cases h
        exact ⟨rfl,rfl⟩
      · simp only [Program.bind,ExceptT.bindCont,Function.comp_apply,hstatus,hlocation,hjoin,
          decide_true,Bool.and_self,if_true] at h
        exact finishes_ok (k := fun url => f.hops U source originHost origin left url
          (f.identityUsed sent credentialHost identity)) hvalid h

/-- With `left` hops, fewer redirects than that are followed to the body. -/
theorem hops_chain {left r : ℕ} {responses : List Response} {identity : Option String}
    {log : List Event} {result : Except DatastoreError (Option (Response × Download))}
    (hchain : Chain U f url r responses)
    (h : (f.hops U source originHost origin left url identity).run.Finishes log result)
    (hserved : answers log <+: responses.map .ok) :
    (r < left → ∃ final download, result = .ok (some (final,download)) ∧
      answers log = responses.map .ok) ∧
    (left ≤ r → result = .error (.mirror
      s!"more than {maxHops} redirects from {sanitize U source.url}")) := by
  induction left generalizing url r responses identity log with
  | zero =>
    cases h
    exact ⟨fun hr => absurd hr (Nat.not_lt_zero _),fun _ => rfl⟩
  | succ left ih =>
    have hurl : Answered f url := by
      cases hchain with
      | body hurl _ => exact hurl
      | redirect hurl => exact hurl
    obtain ⟨reply,rest,identity',hanswers,hreply⟩ := hops_request hurl h
    rw [hanswers] at hserved
    cases hchain with
    | @body _ response _ hstatus =>
      obtain ⟨rfl,hrest⟩ := List.cons_prefix_cons.mp hserved
      obtain ⟨rfl,hresult⟩ := (hreply response rfl).1 hstatus
      exact ⟨fun _ => ⟨response,_,hresult,hanswers⟩,fun hr => by omega⟩
    | @redirect _ target next r location response responses _ hstatus hlocation hjoin hparse hplain
        hsecure hnext =>
      obtain ⟨rfl,hrest⟩ := List.cons_prefix_cons.mp hserved
      have hvalid := validateHop_plain hparse hplain hsecure
      have hagain := (hreply response rfl).2 hstatus location target next hlocation hjoin hvalid
      obtain ⟨hfew,hmany⟩ := ih hnext hagain hrest
      refine ⟨fun hr => ?_,fun hr => hmany (by omega)⟩
      obtain ⟨final,download,hresult,hall⟩ := hfew (by omega)
      exact ⟨final,download,hresult,by rw [hanswers,hall]; rfl⟩

end chain

section body
variable {H : Sha256} {rcv rcv' : Receiver}

theorem Receiver.Open.charge (h : rcv.Open) (buf : Bytes) : rcv.charge buf = some rcv := by
  rw [Receiver.charge,h.budget]

theorem Receiver.Open.showHead (h : rcv.Open) (buf : Bytes) : rcv.showHead H buf = rcv := by
  rw [Receiver.showHead,if_pos h.prefixChecked]

theorem sunk_append (log log' : List Event) : sunk (log++log') = sunk log++sunk log' :=
  List.flatMap_append

theorem delivered_append (log log' : List Event) :
    delivered (log++log') = delivered log++delivered log' := List.flatMap_append

/-- An open sink takes a chunk whole, if the disk does. -/
theorem writeAll_open (h : rcv.Open) {buf : Bytes} {log : List Event}
    {out : Except IoError Unit × Receiver} (hrun : (rcv.writeAll H buf).Finishes log out)
    (hsmooth : ∀ e ∈ log, e.Smooth) :
    out.1 = .ok () ∧ out.2.Open ∧ sunk log = buf ∧ delivered log = [] ∧ answers log = [] := by
  unfold Receiver.writeAll at hrun
  split at hrun
  next hnil =>
    cases hrun
    exact ⟨rfl,h,hnil.symm,rfl,rfl⟩
  next =>
    rw [Receiver.write,h.charge] at hrun
    simp only [h.rejected,h.showHead] at hrun
    obtain ⟨log₁,reply,log₂,rfl,hfs,hdone⟩ := Program.Finishes.bind_cases hrun
    cases hfs with
    | call hfs =>
      cases hfs
      have hreply : reply = .ok () := hsmooth ⟨.fs (.appendTmp _ buf),reply⟩ (by simp)
      subst hreply
      cases hdone
      refine ⟨rfl,⟨h.budget,rfl,h.prefixChecked⟩,?_,rfl,rfl⟩
      simp [sunk,Event.put]

/-- What is read is what is written. -/
theorem copy_open {reads : ℕ} (h : rcv.Open) {log : List Event}
    {out : Except DatastoreError Unit × Receiver}
    (hrun : (copy H readBody reads rcv).Finishes log out) (hsmooth : ∀ e ∈ log, e.Smooth) :
    out.1 = .ok () ∧ sunk log = delivered log ∧ answers log = [] := by
  induction reads generalizing rcv log with
  | zero =>
    cases hrun
    exact ⟨rfl,rfl,rfl⟩
  | succ reads ih =>
    rw [copy] at hrun
    obtain ⟨log₁,chunk,log₂,rfl,hread,hcont⟩ := Program.Finishes.bind_cases hrun
    cases hread with
    | @call _ _ reply _ _ hread =>
      obtain ⟨bytes,hreply⟩ : ∃ bytes, reply = .ok bytes :=
        hsmooth ⟨.net .readBody,reply⟩ (by simp)
      subst hreply
      cases hread
      cases bytes with
      | nil =>
        cases hcont
        exact ⟨rfl,rfl,rfl⟩
      | cons b bytes =>
        obtain ⟨log₃,written,log₄,rfl,hwrite,hcont⟩ := Program.Finishes.bind_cases hcont
        obtain ⟨r,rcv₁⟩ := written
        obtain ⟨hr,hopen,hsunk,hdelivered,hanswers⟩ :=
          writeAll_open h hwrite fun e he => hsmooth e (by simp [he])
        dsimp only at hr hopen
        subst hr
        obtain ⟨hout,hall,hnone⟩ := ih hopen hcont fun e he => hsmooth e (by simp [he])
        refine ⟨hout,?_,?_⟩
        · rw [sunk_append,sunk_append,delivered_append,delivered_append,hsunk,hall,hdelivered]
          simp [sunk,delivered,Event.put,Event.brought]
        · rw [answers_append,answers_append,hanswers,hnone]
          rfl

end body

section request
variable {H : Sha256} {U : UrlCrate} {f : Fetcher} {source : Source} {rcv rcv' : Receiver}

/-- One for a request. -/
def Event.requests (e : Event) : ℕ := e.sent.toList.length

theorem length_sends (log : List Event) : (sends log).length = (log.map Event.requests).sum := by
  induction log with
  | nil => rfl
  | cons e log ih =>
    rw [show e::log = [e]++log from rfl,sends,List.filterMap_append,List.length_append]
    rw [sends] at ih
    rw [ih,List.map_append,List.sum_append]
    congr 1

theorem hops_spends (originHost : String) (origin : Option Credential) (left : ℕ) (url : Url)
    (identity : Option String) :
    (f.hops U source originHost origin left url identity).run.Spends Event.requests left := by
  induction left generalizing url identity with
  | zero => exact .of_only trivial
  | succ left ih =>
    have hsend (credential : Option Credential) :
        (liftM (net (.send url credential)) : Op _).run.Spends Event.requests 1 := by
      intro events h
      cases h with
      | start => simp
      | call h =>
        cases h
        simp [Event.requests,Event.sent]
    rw [Fetcher.hops]
    refine Program.Spends.mono (.bind_run (m := 0) (.of_only (.lift_except _)) fun host =>
      .bind_run (m := 0) (.of_only (.lift_except _)) fun found =>
      .bind_run (m := 0) (.of_only (.lift (apply_only (fun _ => rfl) _))) fun looksExpired =>
      .bind_run (m := 1) (n := left) (hsend _) fun reply => ?_) (by omega)
    cases reply with
    | error e => exact .mono (.of_only trivial) (Nat.zero_le _)
    | ok response =>
      dsimp only
      split
      · split
        · exact .mono (.of_only trivial) (Nat.zero_le _)
        · split
          · exact .mono (.of_only trivial) (Nat.zero_le _)
          · exact .mono (.bind_run (m := 0) (.of_only (.lift_except _)) fun next => ih next _)
              (by omega)
      · repeat' split
        all_goals exact .mono (.of_only trivial) (Nat.zero_le _)

theorem navigate_spends : (f.navigate U source).run.Spends Event.requests maxHops :=
  .mono (.bind_run (m := 0) (.of_only (.lift_except _)) fun url =>
    .bind_run (m := 0) (.of_only (.lift_except _)) fun host =>
    .bind_run (m := 0) (.of_only (.lift_except _)) fun origin => hops_spends host origin _ _ _)
    (by omega)

/-- However the servers answer, there are at most ten requests. -/
theorem request_bounded {log : List Event} (h : (f.request H U source rcv).Trace log) :
    (sends log).length ≤ maxHops := by
  rw [length_sends]
  refine Program.Spends.mono (.bind (n := 0) navigate_spends fun r => ?_) (by omega) log h
  match r with
  | .error e => exact .of_only trivial
  | .ok none => exact .of_only trivial
  | .ok (some (response,download)) =>
    have hread : readBody.Only fun c => ∀ r, Event.requests ⟨c,r⟩ = 0 :=
      ⟨fun _ => rfl,fun _ => trivial⟩
    refine .of_only (.bind (copy_only hread (fun _ _ _ => rfl) _ _) fun out => ?_)
    obtain ⟨r,rcv'⟩ := out
    cases r <;> trivial

/-- What is promised for a source behind `r` redirects: up to the limit its body gets into the
sink once and whole, beyond it nothing is written, and the requests are bounded. -/
structure Followed (H : Sha256) (U : UrlCrate) (f : Fetcher) (source : Source) (rcv : Receiver)
    (r : ℕ) (log : List Event) (result : Except DatastoreError (Option Download))
    (rcv' : Receiver) : Prop where
  body : r ≤ maxHops → (∃ download, result = .ok (some download)) ∧
    (answers log).length = r+1 ∧ sunk log = delivered log
  refused : maxHops < r → result = .error (.mirror
    s!"more than {maxHops} redirects from {sanitize U source.url}") ∧
    rcv' = rcv ∧ ∀ e ∈ log, ∀ tmp buf, e.1 ≠ .fs (.appendTmp tmp buf)
  bounded : ∀ log, (f.request H U source rcv).Trace log → (sends log).length ≤ maxHops

theorem Chain.length {url : Url} {r : ℕ} {responses : List Response}
    (h : Chain U f url r responses) : responses.length = r+1 := by
  induction h with
  | body _ _ => rfl
  | redirect _ _ _ _ _ _ _ _ ih => simp [ih]

theorem Chain.answered {url : Url} {r : ℕ} {responses : List Response}
    (h : Chain U f url r responses) : Answered f url := by
  cases h with
  | body hurl _ => exact hurl
  | redirect hurl => exact hurl

/-- A request, or a look at the clock. -/
def Call.Asks : Call → Prop
  | .net (.send _ _) | .net .systemNow => True
  | _ => False

theorem silent_of_asks {log : List Event} (h : ∀ e ∈ log, e.1.Asks) :
    sunk log = [] ∧ delivered log = [] := by
  constructor
  · refine List.flatMap_eq_nil_iff.mpr fun e he => ?_
    unfold Event.put
    split
    next => exact (h _ he).elim
    next => rfl
  · refine List.flatMap_eq_nil_iff.mpr fun e he => ?_
    unfold Event.brought
    split
    next => exact (h _ he).elim
    next => rfl

section
variable {url : Url} {r : ℕ} {responses : List Response} {log : List Event}
  {result : Except DatastoreError (Option Download)}

/-- The requests of a run, and what is done with the body at the end of the chain. -/
theorem request_chain (hparse : U.parse source.url = .ok url) (hplain : url.Plain)
    (hchain : Chain U f url r responses)
    (hrun : (f.request H U source rcv).Finishes log (result,rcv'))
    (hserved : answers log <+: responses.map .ok) :
    (r < maxHops → ∃ before after reads download out,
      log = before++after ∧ answers before = responses.map .ok ∧
      (∀ e ∈ before, e.1.Asks) ∧ (copy H readBody reads rcv).Finishes after out ∧
      (out.1 = .ok () → result = .ok (some download))) ∧
    (maxHops ≤ r → result = .error (.mirror
      s!"more than {maxHops} redirects from {sanitize U source.url}") ∧ rcv' = rcv ∧
      ∀ e ∈ log, e.1.Asks) := by
  obtain ⟨host,credential,hhost,hlookup⟩ := hchain.answered
  rw [Fetcher.request] at hrun
  obtain ⟨before,navigated,after,rfl,hnavigate,hcont⟩ := Program.Finishes.bind_cases hrun
  have hsilent : ∀ e ∈ before, e.1.Asks :=
    Program.Only.of_finishes (navigate_only (fun _ _ => trivial) trivial) hnavigate
  rw [Fetcher.navigate] at hnavigate
  replace hnavigate := finishes_ok (parseSourceUrl_plain hparse hplain) hnavigate
  replace hnavigate := finishes_ok (hostOf_some hhost) hnavigate
  replace hnavigate := finishes_ok hlookup hnavigate
  have hbefore : answers before <+: responses.map .ok := by
    rw [answers_append] at hserved
    exact (List.prefix_append _ _).trans hserved
  obtain ⟨hfew,hmany⟩ := hops_chain hchain hnavigate hbefore
  refine ⟨fun hr => ?_,fun hr => ?_⟩
  · obtain ⟨final,download,rfl,hanswers⟩ := hfew hr
    dsimp only at hcont
    obtain ⟨log₁,out,log₂,rfl,hcopy,hdone⟩ := Program.Finishes.bind_cases hcont
    obtain ⟨copied,rcv₁⟩ := out
    cases copied with
    | error e =>
      cases hdone
      exact ⟨before,log₁,final.reads,download,_,by rw [List.append_nil],hanswers,hsilent,hcopy,
        fun h => by cases h⟩
    | ok u =>
      cases hdone
      exact ⟨before,log₁,final.reads,download,_,by rw [List.append_nil],hanswers,hsilent,hcopy,
        fun _ => rfl⟩
  · rw [hmany hr] at hcont
    cases hcont
    refine ⟨rfl,rfl,?_⟩
    rw [List.append_nil]
    exact hsilent

/-- The engine keeps the promise for every number of redirects but one: it counts requests,
so the last redirect that it should follow is refused. -/
theorem request_followed (hparse : U.parse source.url = .ok url) (hplain : url.Plain)
    (hchain : Chain U f url r responses) (hopen : rcv.Open)
    (hrun : (f.request H U source rcv).Finishes log (result,rcv'))
    (hserved : answers log <+: responses.map .ok) (hsmooth : ∀ e ∈ log, e.Smooth) :
    Followed H U f source rcv r log result rcv' ↔ r ≠ maxHops := by
  obtain ⟨hfew,hmany⟩ := request_chain hparse hplain hchain hrun hserved
  constructor
  · rintro h rfl
    obtain ⟨⟨download,hok⟩,-⟩ := h.body (Nat.le_refl _)
    rw [(hmany (Nat.le_refl _)).1] at hok
    cases hok
  · intro hr
    refine ⟨fun hle => ?_,fun hlt => ?_,fun log h => request_bounded h⟩
    swap
    · obtain ⟨hresult,hsame,hasks⟩ := hmany hlt.le
      refine ⟨hresult,hsame,fun e he tmp buf hcall => ?_⟩
      have hask := hasks e he
      rw [hcall] at hask
      exact hask
    obtain ⟨before,after,reads,download,out,rfl,hanswers,hsilent,hcopy,hdone⟩ :=
      hfew (Nat.lt_of_le_of_ne hle hr)
    obtain ⟨hout,hwhole,hnone⟩ := copy_open hopen hcopy fun e he => hsmooth e (by simp [he])
    refine ⟨⟨download,hdone hout⟩,?_,?_⟩
    · rw [answers_append,hanswers,hnone,List.append_nil,List.length_map,hchain.length]
    · obtain ⟨hsunk,hdelivered⟩ := silent_of_asks hsilent
      rw [sunk_append,delivered_append,hsunk,hdelivered,hwhole]

end

end request

section examples
variable {f : Fetcher}

/-- A redirect to the second host. -/
def toSecond : Response := ⟨302,some "https://b.org/",none,0⟩

/-- The second host redirects to itself before it gives way. -/
theorem chain_second (r : ℕ) : Chain (twoHosts "a.com" "b.org") ⟨none⟩ (rootPage "b.org") r
    (List.replicate r toSecond++[⟨200,none,none,2⟩]) := by
  induction r with
  | zero => exact .body ⟨"b.org",none,rfl,rfl⟩ rfl
  | succ r ih =>
    have hstatus : 300 ≤ toSecond.status ∧ toSecond.status < 400 := ⟨by decide,by decide⟩
    exact .redirect ⟨"b.org",none,rfl,rfl⟩ hstatus rfl rfl rfl ⟨.inr rfl,rfl,rfl⟩ (fun _ => rfl) ih

theorem chain_first (r : ℕ) : Chain (twoHosts "a.com" "b.org") ⟨none⟩ (rootPage "a.com") (r+1)
    (toSecond::(List.replicate r toSecond++[⟨200,none,none,2⟩])) := by
  have hstatus : 300 ≤ toSecond.status ∧ toSecond.status < 400 := ⟨by decide,by decide⟩
  exact .redirect ⟨"a.com",none,rfl,rfl⟩ hstatus rfl rfl rfl ⟨.inr rfl,rfl,rfl⟩ (fun _ => rfl)
    (chain_second r)

/-- One redirect, then a body. -/
theorem request_followed_once :
    let U := twoHosts "a.com" "b.org"
    let rcv : Receiver := ⟨0,.none,[],0,[],true,none,none,false⟩
    let log : List Event :=
      [⟨.net (.send (rootPage "a.com") none),.ok toSecond⟩,
        ⟨.net (.send (rootPage "b.org") none),.ok ⟨200,none,none,2⟩⟩,
        ⟨.net .readBody,.ok [0x61]⟩,⟨.fs (.appendTmp 0 [0x61]),.ok ()⟩,⟨.net .readBody,.ok []⟩]
    Followed .sample U ⟨none⟩ (.new "https://a.com/") rcv 1 log (.ok (some ⟨none,none⟩))
      { rcv with hashed := [0x61], bytes := 1 } ↔ 1 ≠ maxHops := by
  have hplain : (rootPage "a.com").Plain := ⟨.inr rfl,rfl,rfl⟩
  refine request_followed rfl hplain (chain_first 0) ⟨rfl,rfl,rfl⟩ ?_ ?_ ?_
  · exact .call (.call (.call (.call (.call (.done _)))))
  · exact ⟨[],rfl⟩
  · simp [Event.Smooth]

/-- Ten redirects are not more than ten, and the body behind them is never asked for. -/
theorem request_unfollowed :
    let U := twoHosts "a.com" "b.org"
    let rcv : Receiver := ⟨0,.none,[],0,[],true,none,none,false⟩
    let log : List Event := ⟨.net (.send (rootPage "a.com") none),.ok toSecond⟩::
      List.replicate 9 ⟨.net (.send (rootPage "b.org") none),.ok toSecond⟩
    let result : Except DatastoreError (Option Download) :=
      .error (.mirror "more than 10 redirects from https://a.com/")
    (∃ responses, Chain U ⟨none⟩ (rootPage "a.com") 10 responses ∧
      answers log <+: responses.map .ok) ∧
    (Fetcher.request .sample U ⟨none⟩ (.new "https://a.com/") rcv).Finishes log (result,rcv) ∧
    ¬ Followed .sample U ⟨none⟩ (.new "https://a.com/") rcv 10 log result rcv := by
  refine ⟨⟨_,chain_first 9,?_⟩,?_,fun h => ?_⟩
  · exact ⟨[.ok ⟨200,none,none,2⟩],rfl⟩
  · exact .call (.call (.call (.call (.call (.call (.call (.call (.call (.call (.done _))))))))))
  · obtain ⟨⟨download,hok⟩,-⟩ := h.body (by decide)
    cases hok

end examples
end StarfieldDatastore
