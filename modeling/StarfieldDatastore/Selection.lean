import StarfieldDatastore.Config
import Mathlib.Data.List.Perm.Basic

/-! An explicit selection of credentials. A host gets its credential and its identity from the
one entry that is selected for it, or from none. -/
namespace StarfieldDatastore

namespace CredentialConfig

/-- The entry with its hosts as they are looked up. -/
def normalized (entry : CredentialConfig) : CredentialConfig :=
  { entry with hosts := entry.hosts.map normalizeHost }

/-- A recognised entry lists the host, up to blanks around it and letter case. -/
def serves (host : String) (entry : CredentialConfig) : Bool :=
  entry.recognized && entry.hosts.any fun listed => normalizeHost listed = toAsciiLowercase host

end CredentialConfig

/-- What a source reads is the same on two machines. -/
def CredentialSource.SameSecret (m m' : Machine) : CredentialSource → Prop
  | .env variable_ => m.env variable_ = m'.env variable_
  | .basic _ passwordEnv => m.env passwordEnv = m'.env passwordEnv
  | .netrc => m.env "HOME" = m'.env "HOME" ∧ m.netrc = m'.netrc
  | .onePassword reference => m.op.map (· reference) = m'.op.map (· reference)
  | .unrecognized _ => True

/-- The entries with the selected names. -/
def DatastoreConfig.selected (c : DatastoreConfig) (names : List String) : List CredentialConfig :=
  names.filterMap c.credential

/-- The hosts that the recognised entries claim. -/
def claims (entries : List CredentialConfig) : List (String × CredentialConfig) :=
  (entries.filter CredentialConfig.recognized).flatMap fun entry =>
    entry.normalized.hosts.map fun host => (host,entry.normalized)

section selection
variable {α : Type} {m m' : Machine} {host : String} {entry : CredentialConfig} {entries es : List CredentialConfig}
  {names names' : List String} {byHost found : List (String × CredentialConfig)} {c c' : DatastoreConfig}
  {env env' : Environment}

theorem validateEntry_ok (names : List String) :
    entry.validate names = .ok () ↔ entry.validate [] = .ok () ∧ entry.name ∉ names := by
  unfold CredentialConfig.validate
  by_cases hmem : entry.name ∈ names
  · simp only [hmem,if_true,not_true_eq_false,and_false,iff_false]
    split <;> simp
  · simp [hmem]

theorem validateFrom_ok : validateFrom names entries = .ok () ↔
    (∀ entry ∈ entries, entry.validate [] = .ok () ∧ entry.name ∉ names) ∧
      (entries.map CredentialConfig.name).Nodup := by
  induction entries generalizing names with
  | nil => simp [validateFrom]
  | cons entry entries ih =>
    rw [validateFrom,bind_eq_ok]
    simp only [validateEntry_ok names,ih,List.mem_cons,List.map_cons,List.nodup_cons,List.mem_map]
    constructor
    · rintro ⟨-,⟨hvalid,hname⟩,hrest,hnodup⟩
      refine ⟨?_,?_,hnodup⟩
      · rintro e (rfl | he)
        · exact ⟨hvalid,hname⟩
        · exact ⟨(hrest e he).1,fun h => (hrest e he).2 (.inr h)⟩
      · rintro ⟨e,he,hn⟩
        exact (hrest e he).2 (.inl hn)
    · rintro ⟨hall,hfirst,hnodup⟩
      refine ⟨(),hall entry (.inl rfl),fun e he => ⟨(hall e (.inr he)).1,?_⟩,hnodup⟩
      rintro (hn | hn)
      · exact hfirst ⟨e,he,hn⟩
      · exact (hall e (.inr he)).2 hn

theorem claim_ok (hosts : List String) (hb : (byHost.map Prod.fst).Nodup) :
    claim entry byHost hosts = .ok found ↔
      found = (hosts.map fun host => (host,entry)).reverse++byHost ∧ (found.map Prod.fst).Nodup := by
  induction hosts generalizing byHost with
  | nil =>
    simp only [claim,Except.ok.injEq,List.map_nil,List.reverse_nil,List.nil_append]
    constructor
    · rintro rfl
      exact ⟨rfl,hb⟩
    · rintro ⟨rfl,-⟩
      rfl
  | cons host hosts ih =>
    have hlist : ((host :: hosts).map fun host => (host,entry)).reverse++byHost =
        (hosts.map fun host => (host,entry)).reverse++(host,entry) :: byHost := by simp
    rw [claim,hlist]
    cases hl : byHost.lookup host with
    | none =>
      refine ih (List.nodup_cons.mpr ⟨?_,hb⟩)
      exact lookup_none_iff.mp hl
    | some other =>
      simp only [reduceCtorEq,false_iff]
      rintro ⟨rfl,hnodup⟩
      rw [List.map_append,List.map_cons] at hnodup
      have hout := (List.nodup_cons.mp (List.nodup_append.mp hnodup).2.1).1
      rw [lookup_none_iff.mpr hout] at hl
      cases hl

theorem claims_cons : claims (entry :: entries) =
    (if entry.recognized then entry.normalized.hosts.map fun host => (host,entry.normalized) else [])++
      claims entries := by
  unfold claims
  cases h : entry.recognized <;> simp [h]

theorem collect_ok (skipped : List SkippedCredential) (hb : (byHost.map Prod.fst).Nodup) :
    (∃ skipped', collect byHost skipped entries = .ok (found,skipped')) ↔
      found = (claims entries).reverse++byHost ∧ (found.map Prod.fst).Nodup := by
  induction entries generalizing byHost skipped with
  | nil =>
    simp only [collect,Except.ok.injEq,Prod.mk.injEq,claims,List.filter_nil,List.flatMap_nil,
      List.reverse_nil,List.nil_append]
    constructor
    · rintro ⟨-,rfl,-⟩
      exact ⟨rfl,hb⟩
    · rintro ⟨rfl,-⟩
      exact ⟨_,rfl,rfl⟩
  | cons entry entries ih =>
    rw [claims_cons]
    cases hr : entry.recognized with
    | false =>
      cases hs : entry.source with
      | unrecognized raw =>
        rw [collect]
        simp only [hs,Bool.false_eq_true,if_false,List.nil_append]
        exact ih _ hb
      | _ => simp [CredentialConfig.recognized,hs] at hr
    | true =>
      have hstep : collect byHost skipped (entry :: entries) =
          (claim entry.normalized byHost entry.normalized.hosts >>= fun byHost => collect byHost skipped entries) := by
        obtain ⟨name,hosts,source⟩ := entry
        cases source with
        | unrecognized raw => simp [CredentialConfig.recognized] at hr
        | _ => rfl
      rw [hstep]
      simp only [bind_eq_ok,if_true,List.reverse_append,List.append_assoc]
      constructor
      · rintro ⟨skipped',mid,hmid,hrest⟩
        obtain ⟨rfl,hnodup⟩ := (claim_ok _ hb).mp hmid
        exact (ih skipped hnodup).mp ⟨skipped',hrest⟩
      · rintro ⟨rfl,hnodup⟩
        have hmid : (((entry.normalized.hosts.map fun host => (host,entry.normalized)).reverse++byHost).map
            Prod.fst).Nodup := by
          rw [List.map_append] at hnodup
          exact (List.nodup_append.mp hnodup).2.1
        obtain ⟨skipped',hrest⟩ := (ih skipped hmid).mpr ⟨rfl,hnodup⟩
        exact ⟨skipped',_,(claim_ok _ hb).mpr ⟨rfl,hmid⟩,hrest⟩

/-- When a selection is accepted, and what the hosts are then mapped to. -/
theorem providerWithWarnings_ok {p : Provider} : providerWithWarnings entries = .ok p ↔
    p = .config (claims entries).reverse ∧ (∀ entry ∈ entries, entry.validate [] = .ok ()) ∧
      (entries.map CredentialConfig.name).Nodup ∧ ((claims entries).map Prod.fst).Nodup := by
  have hnodup : (((claims entries).reverse++[]).map Prod.fst).Nodup ↔ ((claims entries).map Prod.fst).Nodup := by
    rw [List.append_nil,List.map_reverse,List.nodup_reverse]
  have hnil : (([] : List (String × CredentialConfig)).map Prod.fst).Nodup := List.nodup_nil
  simp only [providerWithWarnings,configuredProvider,validateEntries,bind_eq_ok]
  constructor
  · rintro ⟨⟨q,skipped⟩,⟨⟨⟩,hvalid,⟨byHost,skipped'⟩,hcollect,hq⟩,hp⟩
    cases hp
    cases hq
    obtain ⟨rfl,hkeys⟩ := (collect_ok [] hnil).mp ⟨_,hcollect⟩
    obtain ⟨hall,hnames⟩ := validateFrom_ok.mp hvalid
    exact ⟨by rw [List.append_nil],fun e he => (hall e he).1,hnames,hnodup.mp hkeys⟩
  · rintro ⟨rfl,hall,hnames,hkeys⟩
    obtain ⟨skipped,hcollect⟩ := (collect_ok [] hnil).mpr ⟨rfl,hnodup.mpr hkeys⟩
    rw [List.append_nil] at hcollect
    refine ⟨_,⟨(),validateFrom_ok.mpr ⟨fun e he => ⟨hall e he,List.not_mem_nil⟩,hnames⟩,_,hcollect,rfl⟩,rfl⟩

theorem mem_claims {listed : String} {e : CredentialConfig} : (listed,e) ∈ claims entries ↔
    ∃ entry ∈ entries, entry.recognized = true ∧ listed ∈ entry.hosts.map CredentialConfig.normalizeHost ∧
      e = entry.normalized := by
  simp only [claims,List.mem_flatMap,List.mem_filter,List.mem_map,Prod.mk.injEq,CredentialConfig.normalized]
  constructor
  · rintro ⟨entry,⟨hmem,hr⟩,_,⟨h,hh,rfl⟩,rfl,rfl⟩
    exact ⟨entry,hmem,hr,⟨h,hh,rfl⟩,rfl⟩
  · rintro ⟨entry,hmem,hr,⟨h,hh,rfl⟩,rfl⟩
    exact ⟨entry,⟨hmem,hr⟩,_,⟨h,hh,rfl⟩,rfl,rfl⟩

theorem serves_iff : entry.serves host = true ↔ entry.recognized = true ∧
    toAsciiLowercase host ∈ entry.hosts.map CredentialConfig.normalizeHost := by
  simp [CredentialConfig.serves]

/-- In an accepted selection at most one entry serves a host. -/
theorem serves_unique (hkeys : ((claims entries).map Prod.fst).Nodup) (host : String) :
    entries.filter (CredentialConfig.serves host) = [] ∨ ∃ entry, entries.filter (CredentialConfig.serves host) = [entry] := by
  induction entries with
  | nil => exact .inl rfl
  | cons entry entries ih =>
    rw [claims_cons,List.map_append] at hkeys
    obtain ⟨-,hrest,hdisjoint⟩ := List.nodup_append.mp hkeys
    cases hs : entry.serves host with
    | false =>
      rw [List.filter_cons_of_neg (by simp [hs])]
      exact ih hrest
    | true =>
      have hnone : entries.filter (CredentialConfig.serves host) = [] := by
        rw [List.filter_eq_nil_iff]
        intro other hmem hother
        obtain ⟨hr,hlists⟩ := serves_iff.mp hs
        obtain ⟨hr',hlists'⟩ := serves_iff.mp hother
        have hfirst : toAsciiLowercase host ∈ (if entry.recognized then
            entry.normalized.hosts.map fun host => (host,entry.normalized) else []).map Prod.fst := by
          simpa [hr,CredentialConfig.normalized] using hlists
        exact hdisjoint _ hfirst _ (List.mem_map.mpr ⟨_,mem_claims.mpr ⟨other,hmem,hr',hlists',rfl⟩,rfl⟩) rfl
      rw [List.filter_cons_of_pos hs,hnone]
      exact .inr ⟨entry,rfl⟩

/-- The entry that the provider of a selection has for a host. -/
theorem entry_of_serves (hkeys : ((claims entries).map Prod.fst).Nodup) (hmem : entry ∈ entries)
    (hs : entry.serves host = true) :
    ConfigProvider.entry (claims entries).reverse host = some entry.normalized := by
  obtain ⟨hr,hlists⟩ := serves_iff.mp hs
  apply (lookup_iff_mem (by rwa [List.map_reverse,List.nodup_reverse])).mpr
  exact List.mem_reverse.mpr (mem_claims.mpr ⟨entry,hmem,hr,hlists,rfl⟩)

theorem entry_of_none (hnone : entries.filter (CredentialConfig.serves host) = []) :
    ConfigProvider.entry (claims entries).reverse host = none := by
  apply lookup_none_iff.mpr
  intro hmem
  rw [List.map_reverse,List.mem_reverse] at hmem
  obtain ⟨⟨listed,e⟩,hclaim,rfl⟩ := List.mem_map.mp hmem
  obtain ⟨entry,hmem,hr,hlists,-⟩ := mem_claims.mp hclaim
  exact List.filter_eq_nil_iff.mp hnone entry hmem (serves_iff.mpr ⟨hr,hlists⟩)

/-- A source gives the same on two machines that have the same secret for it. -/
theorem fromSource_congr (h : entry.source.SameSecret m m') :
    ConfigProvider.fromSource m entry host entry.source = ConfigProvider.fromSource m' entry host entry.source := by
  cases hs : entry.source with
  | env variable_ =>
    rw [hs] at h
    change m.env variable_ = m'.env variable_ at h
    simp only [ConfigProvider.fromSource,readEnv,h]
  | basic username passwordEnv =>
    rw [hs] at h
    change m.env passwordEnv = m'.env passwordEnv at h
    simp only [ConfigProvider.fromSource,readEnv,h]
  | netrc =>
    rw [hs] at h
    obtain ⟨hhome,hnetrc⟩ := h
    simp only [ConfigProvider.fromSource,NetrcProvider.credentialFor,hhome,hnetrc]
  | onePassword reference =>
    rw [hs] at h
    change m.op.map (· reference) = m'.op.map (· reference) at h
    simp only [ConfigProvider.fromSource,onePassword]
    cases hop : m.op with
    | none =>
      rw [hop] at h
      cases hop' : m'.op with
      | none => rfl
      | some op' => simp [hop'] at h
    | some op =>
      rw [hop] at h
      cases hop' : m'.op with
      | none => simp [hop'] at h
      | some op' =>
        simp only [hop',Option.map_some,Option.some.injEq] at h
        simp only [h]
  | unrecognized raw => rfl

theorem select_cons (name : String) (names : List String) : c.select (name :: names) =
    (match c.credential name with
      | some entry => .ok entry
      | none => .error (.config s!"unknown credential {name}")) >>= fun entry =>
        c.select names >>= fun entries => .ok (entry :: entries) := List.mapM_cons

theorem select_ok : c.select names = .ok es ↔ (∀ name ∈ names, (c.credential name).isSome) ∧ es = c.selected names := by
  induction names generalizing es with
  | nil =>
    constructor
    · intro h
      cases h
      exact ⟨by simp,rfl⟩
    · rintro ⟨-,rfl⟩
      rfl
  | cons name names ih =>
    rw [select_cons]
    simp only [List.forall_mem_cons,DatastoreConfig.selected,List.filterMap_cons]
    cases hn : c.credential name with
    | none => simp [bind,Except.bind]
    | some entry =>
      simp only [bind_eq_ok,Except.ok.injEq,Option.isSome_some,true_and]
      constructor
      · rintro ⟨_,rfl,es,hes,rfl⟩
        obtain ⟨hall,rfl⟩ := ih.mp hes
        exact ⟨hall,rfl⟩
      · rintro ⟨hall,rfl⟩
        exact ⟨entry,rfl,_,ih.mpr ⟨hall,rfl⟩,rfl⟩

/-- What is accepted as a selection does not depend on its order. -/
theorem accepted_perm {p : Provider} (h : entries.Perm es) (hp : providerWithWarnings entries = .ok p) :
    ∃ p', providerWithWarnings es = .ok p' := by
  obtain ⟨-,hall,hnames,hkeys⟩ := providerWithWarnings_ok.mp hp
  have hclaims : (claims entries).Perm (claims es) := (h.filter _).flatMap_right _
  refine ⟨_,providerWithWarnings_ok.mpr ⟨rfl,fun e he => hall e (h.mem_iff.mpr he),?_,?_⟩⟩
  · exact (h.map _).nodup_iff.mp hnames
  · exact (hclaims.map _).nodup_iff.mp hkeys

theorem validateSelection_ok {name : String} {selection : Option (List String)} :
    DatastoreConfig.validateSelection names name selection = .ok () ↔
      ∀ selected, selection = some selected → ∀ s ∈ selected, s ∈ names := by
  cases selection with
  | none => simp [DatastoreConfig.validateSelection]
  | some selected =>
    simp only [DatastoreConfig.validateSelection,Option.some.injEq,forall_eq']
    cases hf : selected.find? fun s => s ∉ names with
    | none =>
      rw [List.find?_eq_none] at hf
      simpa using hf
    | some missing =>
      have hmem := List.mem_of_find?_eq_some hf
      have hnot := List.find?_some hf
      simp only [reduceCtorEq,false_iff,not_forall]
      exact ⟨missing,hmem,by simpa using hnot⟩

theorem forM_ok {f : α → Except DatastoreError Unit} {l : List α} :
    l.forM f = .ok () ↔ ∀ a ∈ l, f a = .ok () := by
  induction l with
  | nil => simp [pure,Except.pure]
  | cons a l ih =>
    change (f a >>= fun _ => l.forM f) = .ok () ↔ _
    rw [bind_eq_ok,List.forall_mem_cons,ih]
    exact ⟨fun ⟨_,ha,hl⟩ => ⟨ha,hl⟩,fun ⟨ha,hl⟩ => ⟨(),ha,hl⟩⟩

/-- Whether a service is accepted does not depend on the order of the names it selects. -/
theorem validateService_perm {name : String} {service : ServiceConfig} (hn : names'.Perm names)
    (hc : service.credentials = some names') {known : List String}
    (h : c.validateService known name service = .ok ()) :
    c.validateService known name { service with credentials := some names } = .ok () := by
  simp only [DatastoreConfig.validateService,bind_eq_ok] at h ⊢
  obtain ⟨⟨⟩,hcache,h⟩ := h
  refine ⟨(),hcache,?_⟩
  split at h
  · cases h
  · rename_i hname
    rw [if_neg hname,validateSelection_ok]
    rw [validateSelection_ok] at h
    rintro selected ⟨⟩ s hs
    exact h names' hc s (hn.mem_iff.mpr hs)

/-- The builder that the file completes depends on the provider only where it is put. -/
theorem applyFile_credentials {p q : Provider} {b : DatastoreBuilder}
    (h : DatastoreConfig.applyFile env { DatastoreBuilder.default with credentials := some p } c = .ok b) :
    b.credentials = some p ∧
      DatastoreConfig.applyFile env { DatastoreBuilder.default with credentials := some q } c =
        .ok { b with credentials := some q } := by
  simp only [DatastoreConfig.applyFile,bind_eq_ok] at h ⊢
  obtain ⟨mirror,hmirror,allow,hallow,offline,hoffline,found,hfound,max,hmax,h⟩ := h
  cases hfound
  cases h
  exact ⟨rfl,mirror,hmirror,allow,hallow,offline,hoffline,q,rfl,max,hmax,rfl⟩

section service
variable {name : String} {service : ServiceConfig} {services : AList fun _ : String => ServiceConfig}
  {builder : DatastoreBuilder}

theorem builderForService_ok (hs : c.services.lookup name = some service) (hc : service.credentials = some names) :
    c.builderForService env name = .ok builder ↔ c.validate = .ok () ∧ (∀ n ∈ names, (c.credential n).isSome) ∧
      ∃ p, providerWithWarnings (c.selected names) = .ok p ∧
        DatastoreConfig.applyFile env { DatastoreBuilder.default with credentials := some p } c = .ok builder := by
  simp only [DatastoreConfig.builderForService,hs,hc,bind_eq_ok]
  constructor
  · rintro ⟨⟨⟩,hvalid,es,hes,p,hp,hb⟩
    obtain ⟨hall,rfl⟩ := select_ok.mp hes
    exact ⟨hvalid,hall,p,hp,hb⟩
  · rintro ⟨hvalid,hall,p,hp,hb⟩
    exact ⟨(),hvalid,_,select_ok.mpr ⟨hall,rfl⟩,p,hp,hb⟩

theorem validate_reordered (hs : c.services.lookup name = some service) (hc : service.credentials = some names)
    (hn : names.Perm names') (hothers : ∀ n ≠ name, services.lookup n = c.services.lookup n)
    (hname : services.lookup name = some { service with credentials := some names' }) (h : c.validate = .ok ()) :
    DatastoreConfig.validate { c with services := services } = .ok () := by
  simp only [DatastoreConfig.validate,bind_eq_ok] at h ⊢
  obtain ⟨known,hknown,h⟩ := h
  rw [forM_ok] at h
  refine ⟨known,hknown,?_⟩
  rw [forM_ok]
  intro ⟨n,found⟩ hmem
  have hl : services.lookup n = some found := AList.mem_lookup_iff.mpr hmem
  by_cases he : n = name
  · subst he
    cases hname.symm.trans hl
    exact validateService_perm hn hc (h ⟨n,service⟩ (AList.mem_lookup_iff.mp hs))
  · rw [hothers n he] at hl
    exact h ⟨n,found⟩ (AList.mem_lookup_iff.mp hl)

/-- A selection that is accepted is accepted in any order. -/
theorem builder_reordered (hs : c.services.lookup name = some service) (hc : service.credentials = some names)
    (hn : names.Perm names') (hothers : ∀ n ≠ name, services.lookup n = c.services.lookup n)
    (hname : services.lookup name = some { service with credentials := some names' })
    (h : ∃ builder, c.builderForService env name = .ok builder) :
    ∃ builder, DatastoreConfig.builderForService { c with services := services } env name = .ok builder := by
  obtain ⟨builder,h⟩ := h
  obtain ⟨hvalid,hall,p,hp,hb⟩ := (builderForService_ok hs hc).mp h
  obtain ⟨q,hq⟩ := accepted_perm (hn.filterMap c.credential) hp
  refine ⟨_,(builderForService_ok hname rfl).mpr ⟨validate_reordered hs hc hn hothers hname hvalid,?_,q,hq,
    (applyFile_credentials (q := q) hb).2⟩⟩
  intro n hmem
  exact hall n (hn.mem_iff.mpr hmem)

/-- The provider of an explicit selection asks the one entry that serves the host. -/
theorem builder_provider (hs : c.services.lookup name = some service) (hc : service.credentials = some names)
    (h : c.builderForService env name = .ok builder) : ∃ p, builder.credentials = some p ∧ ∀ host,
      ((c.selected names).filter (CredentialConfig.serves host) = [] ∧
        ∀ m, p.credentialFor m host = .ok none ∧ p.identityFor m host = none) ∨
      ∃ entry, (c.selected names).filter (CredentialConfig.serves host) = [entry] ∧
        ∀ m, p.credentialFor m host = ConfigProvider.fromSource m entry host entry.source ∧
          p.identityFor m host = some s!"config:{entry.name}" := by
  obtain ⟨-,-,p,hp,hb⟩ := (builderForService_ok hs hc).mp h
  obtain ⟨rfl,-,-,hkeys⟩ := providerWithWarnings_ok.mp hp
  refine ⟨_,(applyFile_credentials (q := .env) hb).1,fun host => ?_⟩
  rcases serves_unique hkeys host with hnone | ⟨entry,hone⟩
  · refine .inl ⟨hnone,fun m => ?_⟩
    simp [Provider.credentialFor,Provider.identityFor,ConfigProvider.credentialFor,
      ConfigProvider.identityFor,entry_of_none hnone]
  · refine .inr ⟨entry,hone,fun m => ?_⟩
    have hmem : entry ∈ (c.selected names).filter (CredentialConfig.serves host) := by simp [hone]
    obtain ⟨hmem,hserves⟩ := List.mem_filter.mp hmem
    simp only [Provider.credentialFor,Provider.identityFor,ConfigProvider.credentialFor,
      ConfigProvider.identityFor,entry_of_serves hkeys hmem hserves]
    refine ⟨?_,rfl⟩
    cases hsource : entry.source <;> simp only [CredentialConfig.normalized,hsource] <;> rfl

end service

/-- With an explicit selection a host has a credential or an identity only from the one
selected entry that serves it, and both depend on nothing but that entry and its secret. The
order of the selected names makes no difference, for this nor for what is accepted. -/
theorem explicit_selection {name : String} {service : ServiceConfig}
    (hs : c.services.lookup name = some service) (hc : service.credentials = some names) :
    (∀ builder, c.builderForService env name = .ok builder → ∃ p, builder.credentials = some p ∧ ∀ host,
      (∀ m, p.credentialFor m host ≠ .ok none ∨ p.identityFor m host ≠ none →
        ∃ entry, (c.selected names).filter (CredentialConfig.serves host) = [entry]) ∧
      ∀ (c' : DatastoreConfig) (env' : Environment) (name' : String) (service' : ServiceConfig)
        (names' : List String) (builder' : DatastoreBuilder) (p' : Provider) (m m' : Machine),
        c'.services.lookup name' = some service' → service'.credentials = some names' →
        c'.builderForService env' name' = .ok builder' → builder'.credentials = some p' →
        (∀ entry : CredentialConfig, entry.serves host = true → (entry ∈ c.selected names ↔ entry ∈ c'.selected names')) →
        (∀ entry ∈ c.selected names, entry.serves host = true → entry.source.SameSecret m m') →
        p.credentialFor m host = p'.credentialFor m' host ∧ p.identityFor m host = p'.identityFor m' host) ∧
    ∀ (names' : List String) (services : AList fun _ : String => ServiceConfig), names.Perm names' →
      (∀ n ≠ name, services.lookup n = c.services.lookup n) →
      services.lookup name = some { service with credentials := some names' } →
      ((∃ builder, c.builderForService env name = .ok builder) ↔
        ∃ builder, DatastoreConfig.builderForService { c with services := services } env name = .ok builder) := by
  constructor
  · intro builder h
    obtain ⟨p,hb,hp⟩ := builder_provider hs hc h
    refine ⟨p,hb,fun host => ⟨fun m hyields => ?_,?_⟩⟩
    · rcases hp host with ⟨-,hnone⟩ | ⟨entry,hone,-⟩
      · obtain ⟨hcredential,hidentity⟩ := hnone m
        simp [hcredential,hidentity] at hyields
      · exact ⟨entry,hone⟩
    · intro c' env' name' service' names' builder' p' m m' hs' hc' h' hb' hsame hsecret
      obtain ⟨q,hq,hp'⟩ := builder_provider hs' hc' h'
      cases hq.symm.trans hb'
      have hiff : ∀ entry : CredentialConfig, entry ∈ (c.selected names).filter (CredentialConfig.serves host) ↔
          entry ∈ (c'.selected names').filter (CredentialConfig.serves host) := by
        intro entry
        rw [List.mem_filter,List.mem_filter]
        exact and_congr_left (hsame entry)
      rcases hp host with ⟨hnil,hnone⟩ | ⟨entry,hone,hentry⟩
      · rcases hp' host with ⟨-,hnone'⟩ | ⟨entry',hone',-⟩
        · obtain ⟨hcredential,hidentity⟩ := hnone m
          obtain ⟨hcredential',hidentity'⟩ := hnone' m'
          exact ⟨hcredential.trans hcredential'.symm,hidentity.trans hidentity'.symm⟩
        · have := (hiff entry').mpr (by simp [hone'])
          simp [hnil] at this
      · rcases hp' host with ⟨hnil',-⟩ | ⟨entry',hone',hentry'⟩
        · have := (hiff entry).mp (by simp [hone])
          simp [hnil'] at this
        · have hmem : entry ∈ (c.selected names).filter (CredentialConfig.serves host) := by simp [hone]
          have heq : entry = entry' := by
            have := (hiff entry).mp hmem
            rwa [hone',List.mem_singleton] at this
          subst heq
          obtain ⟨hin,hserves⟩ := List.mem_filter.mp hmem
          obtain ⟨hcredential,hidentity⟩ := hentry m
          obtain ⟨hcredential',hidentity'⟩ := hentry' m'
          refine ⟨?_,hidentity.trans hidentity'.symm⟩
          rw [hcredential,hcredential',fromSource_congr (hsecret entry hin hserves)]
  · intro names' services hn hothers hname
    constructor
    · exact builder_reordered hs hc hn hothers hname
    · intro h
      let moved : DatastoreConfig := { c with services := services }
      have hmoved : moved.services.lookup name = some { service with credentials := some names' } := hname
      have hback : ∀ n ≠ name, c.services.lookup n = moved.services.lookup n := fun n hne => (hothers n hne).symm
      have hself : c.services.lookup name = some { service with credentials := some names } := by rw [hs,← hc]
      have hreturn := builder_reordered hmoved rfl hn.symm hback hself h
      exact hreturn

end selection

/-- One token, and a service that selects it. -/
def DatastoreConfig.sample : DatastoreConfig :=
  ⟨none,none,none,none,none,none,[⟨"archive",["a.com"],.env "TOKEN"⟩],
    AList.insert "ephemeris" ⟨none,none,none,none,none,some ["archive"]⟩ ∅⟩

/-- The host of the entry is served by it, and a host below it is not. -/
theorem explicit_selection_sample : ∃ p builder,
    DatastoreConfig.sample.builderForService (fun _ => .notPresent) "ephemeris" = .ok builder ∧
    builder.credentials = some p ∧ p.identityFor ⟨fun _ => .notPresent,.missing,none⟩ "A.com" = some "config:archive" ∧
    ∀ m, p.identityFor m "b.a.com" = none := by
  obtain ⟨builder,hb⟩ : ∃ builder, DatastoreConfig.sample.builderForService (fun _ => .notPresent) "ephemeris" =
      .ok builder := ⟨_,rfl⟩
  have hserves : (DatastoreConfig.sample.selected ["archive"]).filter (CredentialConfig.serves "b.a.com") = [] := by
    decide
  have hservice : DatastoreConfig.sample.services.lookup "ephemeris" = some _ := rfl
  obtain ⟨p,hp,h⟩ := (explicit_selection hservice rfl).1 builder hb
  refine ⟨p,builder,hb,hp,?_,fun m => ?_⟩
  · cases hb
    cases hp
    rfl
  · by_contra hne
    obtain ⟨entry,hone⟩ := (h "b.a.com").1 m (.inr hne)
    rw [hserves] at hone
    cases hone

end StarfieldDatastore
