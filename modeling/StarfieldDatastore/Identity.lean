import StarfieldDatastore.Provider
import StarfieldDatastore.Redirect

/-! Whose credential it was. The identity that a chain gives for a host is that of the
provider whose credential is sent, unless an entry that has none is asked first. -/
namespace StarfieldDatastore
open Interleaving

namespace Provider
variable {m : Machine} {host : String} {p q : Provider} {ps qs : List Provider} {c : Credential}
  {identity : String}

mutual

/-- The single providers of a chain, in the order in which they are asked. -/
def leaves : Provider → List Provider
  | .chain providers => leavess providers
  | p => [p]

def leavess : List Provider → List Provider
  | [] => []
  | p :: ps => p.leaves++leavess ps

end

theorem firstCredential_append : firstCredential m host (ps++qs) =
    (firstCredential m host ps >>= fun
      | some c => .ok (some c)
      | none => firstCredential m host qs) := by
  induction ps with
  | nil => rfl
  | cons p ps ih =>
    simp only [List.cons_append,firstCredential]
    cases p.credentialFor m host with
    | error e => rfl
    | ok found =>
      cases found with
      | some c => rfl
      | none => exact ih

theorem firstIdentity_append : firstIdentity m host (ps++qs) =
    (firstIdentity m host ps).or (firstIdentity m host qs) := by
  induction ps with
  | nil => rfl
  | cons p ps ih =>
    simp only [List.cons_append,firstIdentity]
    cases p.identityFor m host with
    | some identity => rfl
    | none => exact ih

theorem firstCredential_single : firstCredential m host [p] = p.credentialFor m host := by
  simp only [firstCredential]
  cases p.credentialFor m host with
  | error e => rfl
  | ok found => cases found <;> rfl

theorem firstIdentity_single : firstIdentity m host [p] = p.identityFor m host := by
  simp only [firstIdentity]
  cases p.identityFor m host <;> rfl

mutual

/-- A chain does what its single providers do in a row. -/
theorem credentialFor_leaves (p : Provider) :
    p.credentialFor m host = firstCredential m host p.leaves := by
  cases p with
  | chain providers =>
    rw [credentialFor,leaves,firstCredential_leavess providers]
  | env | netrc | static _ | config _ =>
    rw [leaves,firstCredential_single]
    simp

theorem firstCredential_leavess (ps : List Provider) :
    firstCredential m host ps = firstCredential m host (leavess ps) := by
  cases ps with
  | nil => rfl
  | cons p ps =>
    rw [leavess,firstCredential_append,← credentialFor_leaves p,← firstCredential_leavess ps]
    rfl

end

mutual

theorem identityFor_leaves (p : Provider) :
    p.identityFor m host = firstIdentity m host p.leaves := by
  cases p with
  | chain providers =>
    rw [identityFor,leaves,firstIdentity_leavess providers]
  | env | netrc | static _ | config _ =>
    rw [leaves,firstIdentity_single]
    simp

theorem firstIdentity_leavess (ps : List Provider) :
    firstIdentity m host ps = firstIdentity m host (leavess ps) := by
  cases ps with
  | nil => rfl
  | cons p ps =>
    rw [leavess,firstIdentity_append,← identityFor_leaves p,← firstIdentity_leavess ps,firstIdentity]
    cases p.identityFor m host <;> rfl

end

/-- The provider that comes after some that have nothing has the credential. -/
theorem firstCredential_iff : firstCredential m host ps = .ok (some c) ↔
    ∃ before q after, ps = before++q :: after ∧ (∀ b ∈ before, b.credentialFor m host = .ok none) ∧
      q.credentialFor m host = .ok (some c) := by
  induction ps with
  | nil => simp [firstCredential]
  | cons p ps ih =>
    rw [firstCredential]
    cases hp : p.credentialFor m host with
    | error e =>
      refine ⟨fun h => (nomatch h),?_⟩
      rintro ⟨before,q,after,hsplit,hbefore,hq⟩
      cases before with
      | nil =>
        cases hsplit
        rw [hp] at hq
        cases hq
      | cons b before =>
        cases hsplit
        have hb := hbefore p List.mem_cons_self
        rw [hp] at hb
        cases hb
    | ok found =>
      cases found with
      | some c' =>
        constructor
        · intro h
          cases h
          exact ⟨[],p,ps,rfl,by simp,hp⟩
        · rintro ⟨before,q,after,hsplit,hbefore,hq⟩
          cases before with
          | nil =>
            cases hsplit
            exact hp.symm.trans hq
          | cons b before =>
            cases hsplit
            have hb := hbefore p List.mem_cons_self
            rw [hp] at hb
            cases hb
      | none =>
        refine Iff.trans ih ⟨?_,?_⟩
        · rintro ⟨before,q,after,rfl,hbefore,hq⟩
          exact ⟨p :: before,q,after,rfl,List.forall_mem_cons.mpr ⟨hp,hbefore⟩,hq⟩
        · rintro ⟨before,q,after,hsplit,hbefore,hq⟩
          cases before with
          | nil =>
            cases hsplit
            rw [hp] at hq
            cases hq
          | cons b before =>
            cases hsplit
            exact ⟨before,q,after,rfl,fun b hb => hbefore b (List.mem_cons_of_mem _ hb),hq⟩

theorem firstIdentity_none : firstIdentity m host ps = none ↔ ∀ p ∈ ps, p.identityFor m host = none := by
  induction ps with
  | nil => simp [firstIdentity]
  | cons p ps ih =>
    rw [firstIdentity,List.forall_mem_cons,← ih]
    cases p.identityFor m host <;> simp

theorem firstIdentity_split {before after : List Provider} (h : ∀ b ∈ before, b.identityFor m host = none)
    (hq : q.identityFor m host = some identity) :
    firstIdentity m host (before++q :: after) = some identity := by
  rw [firstIdentity_append,firstIdentity_none.mpr h,firstIdentity,hq]
  rfl

mutual

theorem leaves_single (p : Provider) : ∀ q ∈ p.leaves, ∀ ps, q ≠ .chain ps := by
  cases p with
  | chain providers =>
    rw [leaves]
    exact leavess_single providers
  | env | netrc | static _ | config _ =>
    intro q hq ps h
    rw [leaves] at hq
    · rw [List.mem_singleton.mp hq] at h
      cases h
    · simp

theorem leavess_single (ps : List Provider) : ∀ q ∈ leavess ps, ∀ ps', q ≠ .chain ps' := by
  cases ps with
  | nil => exact fun q hq => absurd hq List.not_mem_nil
  | cons p ps =>
    intro q hq
    rcases List.mem_append.mp hq with hq | hq
    · exact leaves_single p q hq
    · exact leavess_single ps q hq

end

/-- The provider that gives a chain its credential. -/
def Supplies (m : Machine) (host : String) (p q : Provider) (c : Credential) : Prop :=
  ∃ before after, p.leaves = before++q :: after ∧ (∀ b ∈ before, b.credentialFor m host = .ok none) ∧
    q.credentialFor m host = .ok (some c)

/-- Whenever there is a credential, the identity is that of the provider that supplied it. -/
def NamesSupplier (m : Machine) (host : String) (p : Provider) : Prop :=
  ∀ c, p.credentialFor m host = .ok (some c) →
    ∃ q identity, Supplies m host p q c ∧ q.identityFor m host = some identity ∧
      p.identityFor m host = some identity

/-- A source without a credential: a `.netrc` that does not have the host, an empty field. -/
def nothing : Except DatastoreError (Option Credential) → Bool
  | .ok none => true
  | _ => false

/-- What an entry of the configuration file is called that lists the host and whose source
has nothing for it. -/
def idle (m : Machine) (host : String) : Provider → Option String
  | .config byHost =>
    match ConfigProvider.entry byHost host with
    | some entry =>
      if nothing (ConfigProvider.fromSource m entry host entry.source) then some s!"config:{entry.name}"
      else none
    | none => none
  | _ => none

/-- When the first idle entry is asked before the provider that has the credential, with
nobody between them who has one, the two have the same name. -/
def NotMisled (m : Machine) (host : String) (p : Provider) : Prop :=
  ∀ before l between q after identity c, p.leaves = before++l :: (between++q :: after) →
    (∀ b ∈ before++l :: between, b.credentialFor m host = .ok none) →
    (∀ b ∈ before, b.idle m host = none) → l.idle m host = some identity →
    q.credentialFor m host = .ok (some c) → q.identityFor m host = some identity

/-- A single provider that has nothing gives no identity, unless it is an idle entry. -/
theorem identityFor_of_nothing (hq : ∀ ps, q ≠ .chain ps) (h : q.credentialFor m host = .ok none) :
    q.identityFor m host = q.idle m host := by
  cases q with
  | chain ps => exact absurd rfl (hq ps)
  | env =>
    simp only [credentialFor] at h
    simp [identityFor,EnvProvider.identityFor,h,idle]
  | netrc =>
    simp only [credentialFor] at h
    simp [identityFor,NetrcProvider.identityFor,h,idle]
  | static credentials =>
    simp only [credentialFor,Except.ok.injEq] at h
    simp [identityFor,h,idle]
  | config byHost =>
    simp only [credentialFor,ConfigProvider.credentialFor] at h
    simp only [identityFor,ConfigProvider.identityFor,idle]
    cases he : ConfigProvider.entry byHost host with
    | none => rfl
    | some entry =>
      rw [he] at h
      simp only at h
      simp [h,nothing]

/-- A single provider that has a credential gives its identity. -/
theorem identityFor_of_credential (hq : ∀ ps, q ≠ .chain ps)
    (h : q.credentialFor m host = .ok (some c)) : ∃ identity, q.identityFor m host = some identity := by
  cases q with
  | chain ps => exact absurd rfl (hq ps)
  | env =>
    simp only [credentialFor] at h
    exact ⟨_,by rw [identityFor,EnvProvider.identityFor,h]⟩
  | netrc =>
    simp only [credentialFor] at h
    exact ⟨_,by rw [identityFor,NetrcProvider.identityFor,h]⟩
  | static credentials =>
    simp only [credentialFor,Except.ok.injEq] at h
    exact ⟨_,by rw [identityFor,h]; rfl⟩
  | config byHost =>
    simp only [credentialFor,ConfigProvider.credentialFor] at h
    cases he : ConfigProvider.entry byHost host with
    | none =>
      rw [he] at h
      cases h
    | some entry => exact ⟨_,by rw [identityFor,ConfigProvider.identityFor,he]; rfl⟩

/-- In a list of which some element has `P`, one is the first that has it. -/
theorem exists_first {α : Type} {P : α → Prop} {l : List α} (h : ∃ a ∈ l, P a) :
    ∃ before a after, l = before++a :: after ∧ (∀ b ∈ before, ¬ P b) ∧ P a := by
  induction l with
  | nil =>
    obtain ⟨a,ha,-⟩ := h
    cases ha
  | cons a l ih =>
    by_cases ha : P a
    · exact ⟨[],a,l,rfl,by simp,ha⟩
    · obtain ⟨b,hb,hP⟩ := h
      rcases List.mem_cons.mp hb with rfl | hb
      · exact absurd hP ha
      · obtain ⟨before,c,after,rfl,hbefore,hc⟩ := ih ⟨b,hb,hP⟩
        exact ⟨a :: before,c,after,rfl,List.forall_mem_cons.mpr ⟨ha,hbefore⟩,hc⟩

theorem first_unique {α : Type} {P : α → Prop} {a b : α} {xs ys xs' ys' : List α}
    (h : xs++a :: ys = xs'++b :: ys') (hxs : ∀ x ∈ xs, ¬ P x) (ha : P a) (hxs' : ∀ x ∈ xs', ¬ P x)
    (hb : P b) : a = b := by
  induction xs generalizing xs' with
  | nil =>
    cases xs' with
    | nil => exact (List.cons.inj h).1
    | cons x xs' =>
      obtain ⟨rfl,-⟩ := List.cons.inj h
      exact absurd ha (hxs' a List.mem_cons_self)
  | cons x xs ih =>
    cases xs' with
    | nil =>
      obtain ⟨rfl,-⟩ := List.cons.inj h
      exact absurd hb (hxs x List.mem_cons_self)
    | cons x' xs' =>
      obtain ⟨-,h⟩ := List.cons.inj h
      exact ih h (fun y hy => hxs y (List.mem_cons_of_mem _ hy))
        (fun y hy => hxs' y (List.mem_cons_of_mem _ hy))

/-- No two providers supply one credential. -/
theorem Supplies.unique {q' : Provider} {c' : Credential} (h : Supplies m host p q c)
    (h' : Supplies m host p q' c') : q = q' := by
  obtain ⟨before,after,hsplit,hnone,hq⟩ := h
  obtain ⟨before',after',hsplit',hnone',hq'⟩ := h'
  refine first_unique (P := fun b => b.credentialFor m host ≠ .ok none) (hsplit.symm.trans hsplit')
    (fun b hb => not_not.mpr (hnone b hb)) ?_ (fun b hb => not_not.mpr (hnone' b hb)) ?_
  · rw [hq]
    simp
  · rw [hq']
    simp

theorem credentialFor_iff : p.credentialFor m host = .ok (some c) ↔ ∃ q, Supplies m host p q c := by
  rw [credentialFor_leaves,firstCredential_iff]
  constructor
  · rintro ⟨before,q,after,h⟩
    exact ⟨q,before,after,h⟩
  · rintro ⟨q,before,after,h⟩
    exact ⟨before,q,after,h⟩

/-- With an idle entry in front, that is whose identity is given. -/
theorem identityFor_idle {before after : List Provider} (hsplit : p.leaves = before++q :: after)
    (hnone : ∀ b ∈ before++[q], b.credentialFor m host = .ok none)
    (hidle : ∀ b ∈ before, b.idle m host = none) (hq : q.idle m host = some identity) :
    p.identityFor m host = some identity := by
  have hleaf : ∀ b ∈ before++[q], b.identityFor m host = b.idle m host := fun b hb => by
    refine identityFor_of_nothing (leaves_single p b ?_) (hnone b hb)
    rw [hsplit]
    simp only [List.mem_append,List.mem_cons] at hb ⊢
    tauto
  rw [identityFor_leaves,hsplit]
  refine firstIdentity_split (fun b hb => ?_) ?_
  · rw [hleaf b (List.mem_append_left _ hb)]
    exact hidle b hb
  · rw [hleaf q (List.mem_append_right _ List.mem_cons_self)]
    exact hq

/-- The identity is that of the supplier exactly when no idle entry stands in its way. -/
theorem namesSupplier_iff (p : Provider) : NamesSupplier m host p ↔ NotMisled m host p := by
  constructor
  · intro h before l between q after identity c hsplit hnone hidle hl hq
    have hsupplies : Supplies m host p q c :=
      ⟨before++l :: between,after,by rw [hsplit]; simp,hnone,hq⟩
    obtain ⟨q',identity',hsupplies',hidentity',hp⟩ := h c (credentialFor_iff.mpr ⟨q,hsupplies⟩)
    have hfirst : p.identityFor m host = some identity :=
      identityFor_idle hsplit (fun b hb => hnone b (by simp at hb ⊢; tauto)) hidle hl
    rw [hsupplies.unique hsupplies',hidentity',← hp,hfirst]
  · intro h c hc
    obtain ⟨q,before,after,hsplit,hnone,hq⟩ := credentialFor_iff.mp hc
    have hqmem : q ∈ p.leaves := by simp [hsplit]
    obtain ⟨identity,hidentity⟩ := identityFor_of_credential (leaves_single p q hqmem) hq
    refine ⟨q,identity,⟨before,after,hsplit,hnone,hq⟩,hidentity,?_⟩
    by_cases hidle : ∃ b ∈ before, b.idle m host ≠ none
    · obtain ⟨first,l,between,rfl,hfirst,hl⟩ := exists_first hidle
      obtain ⟨name,hname⟩ := Option.ne_none_iff_exists'.mp hl
      have hsplit' : p.leaves = first++l :: (between++q :: after) := by rw [hsplit]; simp
      have hfirst' : ∀ b ∈ first, b.idle m host = none := fun b hb => not_not.mp (hfirst b hb)
      have hsame := h first l between q after name c hsplit' hnone hfirst' hname hq
      rw [identityFor_idle hsplit' (fun b hb => hnone b (by simp at hb ⊢; tauto)) hfirst' hname,
        ← hsame,hidentity]
    · rw [identityFor_leaves,hsplit]
      refine firstIdentity_split (fun b hb => ?_) hidentity
      have hbmem : b ∈ p.leaves := by simp [hsplit,hb]
      rw [identityFor_of_nothing (leaves_single p b hbmem) (hnone b hb)]
      by_contra hne
      exact hidle ⟨b,hb,hne⟩

end Provider
/-- The sidecar that an event writes. -/
def Event.sidecar : Event → Option IndexEntry
  | ⟨.fs (.persistSidecar _ entry),_⟩ => some entry
  | _ => none

def sidecars (log : List Event) : List IndexEntry := log.filterMap Event.sidecar

/-- The host whose credential a request to `url` may carry. -/
def MayCarry (U : UrlCrate) (source : Source) (url : Url) (host : String) : Prop :=
  url.host = some host ∨ source.trustRedirects = true ∧
    ∃ url', U.parse source.url = .ok url' ∧ url'.host = some host

/-- The identity of the last credential that was sent, if any was. -/
def Recorded (U : UrlCrate) (p : CredentialProvider) (source : Source) (sent : List Sent)
    (identity : Option String) : Prop :=
  (∀ s ∈ sent, s.2 = none) ∧ identity = none ∨
  ∃ before url c after host, sent = before++(url,some c) :: after ∧ (∀ s ∈ after, s.2 = none) ∧
    MayCarry U source url host ∧ p.credentialFor host = .ok (some c) ∧ identity = p.identityFor host

section recording
variable {U : UrlCrate} {p : CredentialProvider} {source : Source} {H : Sha256} {log : List Event}
  {originHost : String} {origin : Option Credential} {sent : List Sent} {identity : Option String}
  {url : Url} {credential : Option Credential} {host credentialHost : String}

/-- The credential of a hop is held for the host that it is said to be of. -/
theorem credentialAt_some {f : Fetcher} {hop : ℕ} {c : Credential}
    (horigin : f.lookup originHost = .ok origin)
    (h : f.credentialAt source originHost origin hop host = .ok (some c,credentialHost)) :
    f.lookup credentialHost = .ok (some c) ∧
      (credentialHost = host ∨ source.trustRedirects = true ∧ credentialHost = originHost) := by
  unfold Fetcher.credentialAt at h
  obtain ⟨found,hl,h⟩ := bind_eq_ok.mp h
  cases found with
  | some c' =>
    cases h
    exact ⟨hl,.inl rfl⟩
  | none =>
    simp only at h
    split at h
    · rename_i htrust
      cases h
      simp only [Bool.and_eq_true,decide_eq_true_eq] at htrust
      exact ⟨horigin,.inr ⟨htrust.2,rfl⟩⟩
    · cases h

theorem Recorded.append (h : Recorded U p source sent identity)
    (hcredential : ∀ c, credential = some c →
      p.credentialFor credentialHost = .ok (some c) ∧ MayCarry U source url credentialHost) :
    Recorded U p source (sent++[(url,credential)])
      (Fetcher.identityUsed ⟨some p⟩ credential credentialHost identity) := by
  cases credential with
  | some c =>
    obtain ⟨hc,hcarry⟩ := hcredential c rfl
    exact .inr ⟨sent,url,c,[],credentialHost,rfl,by simp,hcarry,hc,rfl⟩
  | none =>
    rcases h with ⟨hnone,hidentity⟩ | ⟨before,url',c,after,host',rfl,hafter,h⟩
    · refine .inl ⟨fun s hs => ?_,hidentity⟩
      rcases List.mem_append.mp hs with hs | hs
      · exact hnone s hs
      · rw [List.mem_singleton.mp hs]
    · refine .inr ⟨before,url',c,after++[(url,none)],host',by simp,fun s hs => ?_,h⟩
      rcases List.mem_append.mp hs with hs | hs
      · exact hafter s hs
      · rw [List.mem_singleton.mp hs]

/-- Any replies at all, with a sidecar written only for the last credential sent. -/
def recording (U : UrlCrate) (p : CredentialProvider) (source : Source) :
    Setting Call Call.Ret (List Event) :=
  .logged fun log => ∀ entry ∈ sidecars log, Recorded U p source (sends log) entry.providerIdentity

/-- While there is no sidecar yet. -/
structure Unwritten (log : List Event) (sent : List Sent) : Prop where
  quiet : sidecars log = []
  sends : sends log = sent

theorem sidecars_append (log : List Event) (e : Event) :
    sidecars (log++[e]) = sidecars log ++ e.sidecar.toList := by
  simp only [sidecars,List.filterMap_append,List.filterMap_cons,List.filterMap_nil]
  cases e.sidecar <;> rfl

theorem Unwritten.step {e : Event} (h : Unwritten log sent) (he : e.sidecar = none) :
    Unwritten (log++[e]) (sent++e.sent.toList) :=
  ⟨by rw [sidecars_append,h.quiet,he]; rfl,by rw [sends_append,h.sends]⟩

/-- A call that writes no sidecar and sends nothing. -/
def Call.unseen (c : Call) : Prop := ∀ r, Event.sent ⟨c,r⟩ = none ∧ Event.sidecar ⟨c,r⟩ = none

theorem Unwritten.holds {α : Type} {prog : Prog α} (h : Unwritten log sent)
    (hp : prog.Only Call.unseen) :
    prog.Holds (recording U p source) (fun _ log' => Unwritten log' sent) log := by
  refine .of_only hp (fun s s' hr hs => hr ▸ hs) (fun c s r s' hc hs hstep => ?_) h
  have hstep : s' = s++[⟨c,r⟩] := hstep
  subst hstep
  have hsame := hs.step (hc r).2
  rw [(hc r).1] at hsame
  simp only [Option.toList_none,List.append_nil] at hsame
  refine ⟨fun entry hentry => ?_,hsame⟩
  rw [hsame.quiet] at hentry
  cases hentry

theorem hops_recorded (horigin : p.credentialFor originHost = .ok origin)
    (hparse : ∃ url, U.parse source.url = .ok url ∧ url.host = some originHost) (left : ℕ) :
    ∀ {url identity log sent}, Unwritten log sent → Recorded U p source sent identity →
      (Fetcher.hops U ⟨some p⟩ source originHost origin left url identity).run.Holds
        (recording U p source) (fun r log => ∃ sent, Unwritten log sent ∧
          ∀ response download, r = .ok (some (response,download)) →
            Recorded U p source sent download.providerIdentity) log := by
  induction left with
  | zero =>
    rintro url identity log sent h - log' rfl
    exact ⟨sent,h,fun _ _ hr => by cases hr⟩
  | succ left ih =>
    intro url identity log sent h hrecorded
    have stop : ∀ {log sent} (e : DatastoreError), Unwritten log sent → ∀ log', log = log' →
        ∃ sent, Unwritten log' sent ∧ ∀ response download,
          (.error e : Except DatastoreError (Option (Response × Download))) =
            .ok (some (response,download)) → Recorded U p source sent download.providerIdentity := by
      rintro log sent e h log' rfl
      exact ⟨sent,h,fun _ _ hr => by cases hr⟩
    unfold Fetcher.hops
    refine .except_bind (fun host hhost => ?_) (fun e _ => stop e h)
    refine .except_bind (fun found hfound => ?_) (fun e _ => stop e h)
    obtain ⟨credential,credentialHost⟩ := found
    refine .bind_run (.bind ((h.holds (apply_only (fun _ => ⟨rfl,rfl⟩) credential)).mono
      fun looksExpired log₁ h₁ => ?_))
    rintro log₂ rfl
    refine .bind_run (.perform_bind fun log₂ hlog₂ r log₃ hlog₃ => ?_)
    obtain rfl : log₁ = log₂ := hlog₂
    have hlog₃ : log₃ = log₁++[⟨.net (.send url credential),r⟩] := hlog₃
    subst hlog₃
    have h₃ : Unwritten (log₁++[⟨.net (.send url credential),r⟩]) (sent++[(url,credential)]) :=
      h₁.step rfl
    have hrecorded₃ : Recorded U p source (sent++[(url,credential)])
        (Fetcher.identityUsed ⟨some p⟩ credential credentialHost identity) := by
      refine hrecorded.append fun c hc => ?_
      subst hc
      obtain ⟨hlookup,hhosts⟩ := credentialAt_some (f := ⟨some p⟩) horigin hfound
      refine ⟨hlookup,?_⟩
      rcases hhosts with rfl | ⟨htrust,rfl⟩
      · exact .inl (hostOf_ok hhost)
      · exact .inr ⟨htrust,hparse⟩
    refine ⟨fun entry hentry => ?_,?_⟩
    · rw [h₃.quiet] at hentry
      cases hentry
    · rintro log₄ rfl
      cases r with
      | error e => exact stop _ h₃
      | ok response =>
        simp only
        split
        · split
          · exact stop _ h₃
          · split
            · exact stop _ h₃
            · refine .except_bind (fun target htarget => ?_) (fun e _ => stop e h₃)
              exact ih h₃ hrecorded₃
        · split
          · split <;> exact stop _ h₃
          · split
            · rintro log₅ rfl
              exact ⟨_,h₃,fun _ _ hr => by cases hr⟩
            · split
              · exact stop _ h₃
              · rintro log₅ rfl
                refine ⟨_,h₃,fun response' download hr => ?_⟩
                cases hr
                exact hrecorded₃

theorem request_recorded (rcv : Receiver) (h : Unwritten log []) :
    (Fetcher.request H U ⟨some p⟩ source rcv).Holds (recording U p source) (fun out log =>
      ∃ sent, Unwritten log sent ∧ ∀ download, out.1 = .ok (some download) →
        Recorded U p source sent download.providerIdentity) log := by
  have hnil : Recorded U p source [] none := .inl ⟨by simp,rfl⟩
  have hnavigate : (Fetcher.navigate U ⟨some p⟩ source).run.Holds (recording U p source)
      (fun r log => ∃ sent, Unwritten log sent ∧ ∀ response download,
        r = .ok (some (response,download)) → Recorded U p source sent download.providerIdentity) log := by
    have stop : ∀ e : DatastoreError, ∀ log', log = log' → ∃ sent, Unwritten log' sent ∧
        ∀ response download, (.error e : Except DatastoreError (Option (Response × Download))) =
          .ok (some (response,download)) → Recorded U p source sent download.providerIdentity := by
      rintro e log' rfl
      exact ⟨[],h,fun _ _ hr => by cases hr⟩
    refine .except_bind (fun url hurl => ?_) (fun e _ => stop e)
    refine .except_bind (fun host hhost => ?_) (fun e _ => stop e)
    refine .except_bind (fun origin horigin => ?_) (fun e _ => stop e)
    exact hops_recorded horigin ⟨url,(parseSourceUrl_ok hurl).1,hostOf_ok hhost⟩ maxHops h hnil
  refine .bind (hnavigate.mono fun r log h => ?_)
  obtain ⟨sent,hsent,hdownload⟩ := h
  match r with
  | .error e =>
    rintro log₁ rfl
    exact ⟨sent,hsent,fun _ hr => by cases hr⟩
  | .ok none =>
    rintro log₁ rfl
    exact ⟨sent,hsent,fun _ hr => by cases hr⟩
  | .ok (some (response,download)) =>
    have hread : readBody.Only Call.unseen := ⟨fun _ => ⟨rfl,rfl⟩,fun _ => trivial⟩
    refine .bind ((hsent.holds (copy_only hread (fun _ _ _ => ⟨rfl,rfl⟩) _ rcv)).mono fun out log₁ h₁ => ?_)
    obtain ⟨r,rcv'⟩ := out
    cases r with
    | error e =>
      rintro log₂ rfl
      exact ⟨sent,h₁,fun _ hr => by cases hr⟩
    | ok done =>
      rintro log₂ rfl
      refine ⟨sent,h₁,fun download' hr => ?_⟩
      cases hr
      exact hdownload response download rfl

/-- What a transfer is received with is the identity of the last credential sent for it. -/
theorem receive_recorded (artifact : Artifact) (budget : Option ℕ) :
    (receive H artifact budget (Fetcher.request H U ⟨some p⟩ source)).Holds (recording U p source)
      (fun out log => ∃ sent, Unwritten log sent ∧ ∀ received, out.1 = .ok (some received) →
        Recorded U p source sent received.info.providerIdentity) [] := by
  have hstart : Unwritten [] [] := ⟨rfl,rfl⟩
  refine .bind ((hstart.holds (.perform fun _ => ⟨rfl,rfl⟩)).mono fun r log h => ?_)
  cases r with
  | error e =>
    rintro log₁ rfl
    exact ⟨[],h,fun _ hr => by cases hr⟩
  | ok tmp =>
    refine .bind ((request_recorded _ h).mono fun out log₁ h₁ => ?_)
    obtain ⟨result,rcv⟩ := out
    obtain ⟨sent,hsent,hdownload⟩ := h₁
    -- On every way out but success the temporary file is dropped.
    have hdrop : ∀ (prog : Except DatastoreError (Option (Received Download)) × Option ℕ),
        (∀ received, prog.1 ≠ .ok (some received)) →
        (fs (.dropTmp tmp) >>= fun _ => .done prog).Holds (recording U p source) (fun out log =>
          ∃ sent, Unwritten log sent ∧ ∀ received, out.1 = .ok (some received) →
            Recorded U p source sent received.info.providerIdentity) log₁ := by
      intro prog hprog
      refine .bind ((hsent.holds (.perform fun _ => ⟨rfl,rfl⟩)).mono fun r log₂ h₂ => ?_)
      rintro log₃ rfl
      exact ⟨sent,h₂,fun received hr => absurd hr (hprog received)⟩
    simp only
    cases hverdict : rcv.verdict H artifact result with
    | error e => exact hdrop _ fun _ hr => by cases hr
    | ok found =>
      cases found with
      | none => exact hdrop _ fun _ hr => by cases hr
      | some info =>
        rintro log₂ rfl
        refine ⟨sent,hsent,fun received hr => ?_⟩
        cases hr
        exact hdownload info (Receiver.verdict_some hverdict)

theorem publishReceived_recorded {α : Type} {artifact : Artifact} {received : Received α} {layer : Layer}
    {from_ etag : Option String} (h : Unwritten log sent) (hrecorded : Recorded U p source sent identity) :
    (Datastore.publishReceived H artifact received layer from_ etag identity).run.Holds
      (recording U p source) (fun _ log => sends log = sent ∧
        ∀ entry ∈ sidecars log, entry.providerIdentity = identity) log := by
  have hcalls : (Datastore.publishReceived H artifact received layer from_ etag identity).run.Only
      fun c => ∀ r, Event.sent ⟨c,r⟩ = none ∧ ∀ entry, Event.sidecar ⟨c,r⟩ = some entry →
        entry.providerIdentity = identity := by
    refine publishReceived_only (fun r => ⟨rfl,fun _ hs => by cases hs⟩) fun c entry hentry hc r => ?_
    cases c with
    | fs c =>
      refine ⟨rfl,fun written hwritten => ?_⟩
      cases c <;> simp [Event.sidecar] at hwritten
      simp only [Call.publishing,Call.placing,Bool.and_eq_true,decide_eq_true_eq] at hc
      rw [← hwritten,hc.2]
      exact hentry
    | net c => cases hc
    | cache c => cases hc
  refine .of_only hcalls (fun s s' hr hs => hr ▸ hs) (fun c s r s' hc hs hstep => ?_) ?_
  · have hstep : s' = s++[⟨c,r⟩] := hstep
    subst hstep
    have hsends : sends (s++[⟨c,r⟩]) = sent := by
      rw [sends_append,(hc r).1,hs.1]
      exact List.append_nil _
    have hall : ∀ entry ∈ sidecars (s++[⟨c,r⟩]), entry.providerIdentity = identity := by
      intro entry hentry
      rw [sidecars_append] at hentry
      rcases List.mem_append.mp hentry with hentry | hentry
      · exact hs.2 entry hentry
      · exact (hc r).2 entry (Option.mem_toList.mp hentry)
    refine ⟨fun entry hentry => ?_,hsends,hall⟩
    rw [hsends,hall entry hentry]
    exact hrecorded
  · refine ⟨h.sends,fun entry hentry => ?_⟩
    rw [h.quiet] at hentry
    cases hentry

/-- The sidecar of a fetch from upstream has the identity of the last credential sent for it. -/
theorem fetchFromUpstream_recorded {ds : Datastore} (hds : ds.fetcher = ⟨some p⟩) (artifact : Artifact)
    (budget : Option ℕ) :
    (ds.fetchFromUpstream H U artifact source budget).Holds (recording U p source) (fun _ _ => True) [] := by
  unfold Datastore.fetchFromUpstream
  rw [hds]
  refine .bind ((receive_recorded artifact budget).mono fun out log h => ?_)
  obtain ⟨sent,hsent,hreceived⟩ := h
  match out with
  | (.error e,budget) => exact fun _ _ => trivial
  | (.ok none,budget) => exact fun _ _ => trivial
  | (.ok (some received),budget) =>
    exact .bind ((publishReceived_recorded hsent (hreceived received rfl)).mono fun _ _ _ _ _ => trivial)

end recording

/-- For every chain of providers and every host, the identity is that of the supplier of the
credential exactly when no idle entry misleads. So, whatever the servers answer, a sidecar
written for a source names the provider of the last credential sent for it exactly when
none does for the host that this is the credential of. -/
theorem identity_iff (m : Machine) (p : Provider) :
    (∀ host, p.NamesSupplier m host ↔ p.NotMisled m host) ∧
    ∀ H U (ds : Datastore) artifact source budget log, ds.fetcher = ⟨some (p.provider m)⟩ →
      (ds.fetchFromUpstream H U artifact source budget).Trace log → ∀ entry ∈ sidecars log,
        (∀ s ∈ sends log, s.2 = none) ∧ entry.providerIdentity = none ∨
        ∃ before url c after host, sends log = before++(url,some c) :: after ∧ (∀ s ∈ after, s.2 = none) ∧
          MayCarry U source url host ∧ p.credentialFor m host = .ok (some c) ∧
          ((∃ q identity, p.Supplies m host q c ∧ q.identityFor m host = some identity ∧
            entry.providerIdentity = some identity) ↔ p.NotMisled m host) := by
  refine ⟨fun host => p.namesSupplier_iff,?_⟩
  intro H U ds artifact source budget log hds hlog entry hentry
  have hrecorded : ∀ entry ∈ sidecars log,
      Recorded U (p.provider m) source (sends log) entry.providerIdentity := by
    simpa using (fetchFromUpstream_recorded hds artifact budget).log_of_trace (by simp [sidecars]) hlog
  rcases hrecorded entry hentry with hnone | ⟨before,url,c,after,host,hsends,hafter,hcarry,hc,hidentity⟩
  · exact .inl hnone
  · have hidentity : entry.providerIdentity = p.identityFor m host := hidentity
    have hc : p.credentialFor m host = .ok (some c) := hc
    refine .inr ⟨before,url,c,after,host,hsends,hafter,hcarry,hc,?_⟩
    rw [← p.namesSupplier_iff,hidentity]
    constructor
    · rintro ⟨q,identity,hq⟩ c' hc'
      rw [hc] at hc'
      cases hc'
      exact ⟨q,identity,hq⟩
    · exact fun h => h c hc

/-- A machine with one token, and a home without `.netrc`. -/
def Machine.withToken : Machine := ⟨oneToken "STARFIELD_TOKEN_A_COM" "t",.missing,none⟩

/-- A fetch of `abc` with the token, up to its sidecar. -/
def tokenFetched : List Event :=
  let body : Bytes := [0x61,0x62,0x63]
  let digest := Sha256.sample.hex body
  [⟨.fs .createTmp,.ok 0⟩,
    ⟨.net (.send (rootPage "a.com") (some (.bearer "t" none))),.ok ⟨200,none,none,1⟩⟩,
    ⟨.net .readBody,.ok body⟩,⟨.fs (.appendTmp 0 body),.ok ()⟩,⟨.fs .now,.ok 7⟩,
    ⟨.fs (.readTmp 0),.ok body⟩,⟨.fs (.lock Layout.storeLockName),.ok ()⟩,
    ⟨.fs (.isBlob digest),.ok false⟩,⟨.fs (.createBlobDir digest),.ok ()⟩,⟨.fs (.syncTmp 0),.ok ()⟩,
    ⟨.fs (.persistBlob 0 digest),.ok ()⟩,⟨.fs (.syncBlobDir digest),.ok ()⟩,
    ⟨.fs (.createIndexDirs "abc.json"),.ok ()⟩,⟨.fs (.stageSidecar "abc.json"),.ok ()⟩,
    ⟨.fs (.persistSidecar "abc.json"
      ⟨digest,3,7,some "https://a.com/",none,some "env:a.com",.upstream⟩),.ok ()⟩]

theorem tokenFetched_trace :
    (Datastore.fetchFromUpstream .sample (twoHosts "a.com" "b.org")
      ⟨⟨"/cache"⟩,none,⟨some ((configuredChain []).provider .withToken)⟩,true,false,none⟩ .sample
      (.new "https://a.com/") none).Trace tokenFetched := by
  unfold tokenFetched
  exact .call (.call (.call (.call (.call (.call (.call (.call (.call (.call (.call (.call (.call
    (.call (.call (.start _)))))))))))))))

/-- The sidecar of that fetch names the environment. -/
theorem identity_iff_token :
    let p := configuredChain []
    (∃ entry ∈ sidecars tokenFetched, entry.providerIdentity = some "env:a.com") ∧
    ∃ before url c after host, sends tokenFetched = before++(url,some c) :: after ∧
      (∀ s ∈ after, s.2 = none) ∧ MayCarry (twoHosts "a.com" "b.org") (.new "https://a.com/") url host ∧
      p.credentialFor .withToken host = .ok (some c) ∧
      ((∃ q identity, p.Supplies .withToken host q c ∧ q.identityFor .withToken host = some identity ∧
        some "env:a.com" = some identity) ↔ p.NotMisled .withToken host) := by
  intro p
  have hentry : ∃ entry ∈ sidecars tokenFetched, entry.providerIdentity = some "env:a.com" := by
    refine ⟨⟨Sha256.sample.hex [0x61,0x62,0x63],3,7,some "https://a.com/",none,some "env:a.com",
      .upstream⟩,?_,rfl⟩
    simp [tokenFetched,sidecars,Event.sidecar]
  refine ⟨hentry,?_⟩
  obtain ⟨entry,hmem,hidentity⟩ := hentry
  rcases (identity_iff .withToken p).2 _ _ _ _ _ _ _ rfl tokenFetched_trace entry hmem with
    ⟨-,hnone⟩ | h
  · rw [hidentity] at hnone
    cases hnone
  · rw [hidentity] at h
    exact h

/-- An entry of the configuration file whose `.netrc` is missing claims the token that the
environment supplies. -/
theorem identity_misled :
    let p := configuredChain [("a.com",⟨"earthdata",["a.com"],.netrc⟩)]
    p.credentialFor .withToken "a.com" = .ok (some (.bearer "t" none)) ∧
    p.Supplies .withToken "a.com" .env (.bearer "t" none) ∧
    Provider.env.identityFor .withToken "a.com" = some "env:a.com" ∧
    p.identityFor .withToken "a.com" = some "config:earthdata" ∧
    ¬ p.NamesSupplier .withToken "a.com" := by
  intro p
  have hc : p.credentialFor .withToken "a.com" = .ok (some (.bearer "t" none)) := by decide
  have hsupplies : p.Supplies .withToken "a.com" .env (.bearer "t" none) :=
    ⟨[.config [("a.com",⟨"earthdata",["a.com"],.netrc⟩)]],[.netrc],rfl,by simp; decide,by decide⟩
  have henv : Provider.env.identityFor .withToken "a.com" = some "env:a.com" := by decide
  have hp : p.identityFor .withToken "a.com" = some "config:earthdata" := by decide
  refine ⟨hc,hsupplies,henv,hp,fun h => ?_⟩
  obtain ⟨q,identity,hq,hidentity,hsame⟩ := h _ hc
  rw [← hsupplies.unique hq,henv] at hidentity
  rw [hp,← hidentity] at hsame
  revert hsame
  decide

end StarfieldDatastore
