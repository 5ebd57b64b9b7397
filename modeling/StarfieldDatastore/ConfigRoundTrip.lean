import StarfieldDatastore.ConfigEntry
import StarfieldDatastore.TomlText

/-! The configuration file through TOML and back. What is written is read as it was, unless
an entry of unknown type holds a float that JSON does not have. -/
namespace StarfieldDatastore

section records
variable {fields : List (String × Option TomlItem)} {key : String} {item : TomlItem} {S : SocketText}

theorem lookup_record (h : (fields.map Prod.fst).Nodup) (key : String) :
    (record fields).lookup key = (fields.lookup key).join := by
  induction fields with
  | nil => rfl
  | cons f fields ih =>
    obtain ⟨key',found⟩ := f
    obtain ⟨hne,hnodup⟩ := List.nodup_cons.mp h
    by_cases hk : key = key'
    · subst hk
      rw [List.lookup_cons_self]
      cases found with
      | none =>
        have hout : (record fields).lookup key = none := by
          rw [ih hnodup,lookup_none_iff.mpr hne]
          rfl
        exact hout
      | some item => exact List.lookup_cons_self
    · have hb : (key == key') = false := by simpa using hk
      rw [List.lookup_cons,hb]
      cases found with
      | none => exact ih hnodup
      | some item =>
        have hcons : record ((key',some item) :: fields) = (key',item) :: record fields := rfl
        rw [hcons,List.lookup_cons,hb]
        exact ih hnodup

theorem record_keys (fields : List (String × Option TomlItem)) :
    ((record fields).map Prod.fst).Sublist (fields.map Prod.fst) := by
  induction fields with
  | nil => exact .slnil
  | cons f fields ih =>
    obtain ⟨key,found⟩ := f
    cases found with
    | none => exact ih.cons key
    | some item => exact ih.cons_cons key

theorem record_known (fields : List (String × Option TomlItem)) :
    knownOnly (fields.map Prod.fst) (record fields) = true := by
  simp only [knownOnly,List.all_eq_true,decide_eq_true_eq]
  exact fun e he => (record_keys fields).subset (List.mem_map.mpr ⟨e,he,rfl⟩)

theorem record_ordered (h : Ascending fields) (hitems : ∀ f ∈ fields, ∀ item, f.2 = some item → item.Ordered) :
    (TomlItem.table (record fields)).Ordered := by
  refine ⟨List.Pairwise.sublist (record_keys fields) h,TomlItem.orderedEntries_iff.mpr fun e he => ?_⟩
  obtain ⟨f,hf,he⟩ := List.mem_filterMap.mp he
  obtain ⟨item,hitem,rfl⟩ := Option.map_eq_some_iff.mp he
  exact hitems f hf item hitem

theorem natItem_of_asU64 {n : ℕ} (h : item.asU64 = some n) : natItem n = some item := by
  cases item with
  | integer i =>
    simp only [TomlItem.asU64] at h
    split at h
    · rename_i hpos
      cases h
      have hcast : ((i.val.toNat : ℕ) : ℤ) = i.val := Int.toNat_of_nonneg hpos
      have hlt : i.val.toNat < 2^63 := by
        have := i.property.2
        omega
      simp only [natItem,I64.ofNat,dif_pos hlt,Option.map_some,hcast]
    · cases h
  | _ => cases h

theorem asU64_ordered {n : ℕ} (h : item.asU64 = some n) : item.Ordered := by
  cases item <;> trivial

/-- A policy that is read is written, and read again as it was. -/
theorem policy_round {p : ServiceCachePolicy} (h : ServiceCachePolicy.deserialize item = some p) :
    ∃ item', p.serialize = some item' ∧ ServiceCachePolicy.deserialize item' = some p ∧ item'.Ordered := by
  cases item with
  | table entries =>
    simp only [ServiceCachePolicy.deserialize,Option.bind_eq_bind,Option.bind_eq_some_iff] at h
    obtain ⟨-,-,evict,hevict,artifact,⟨a,-,ha⟩,max,⟨b,-,hb⟩,fills,⟨c,-,hc⟩,inflight,⟨d,-,hd⟩,free,⟨e,-,he⟩,h⟩ := h
    split at h
    · rename_i hlt
      cases h
      refine ⟨.table [("evict_on_fetch",.boolean (evict.getD false)),("max_artifact_bytes",a),("max_bytes",b),
        ("max_concurrent_fills",c),("max_inflight_bytes",d),("min_free_bytes",e)],?_,?_,?_⟩
      · simp only [ServiceCachePolicy.serialize,natItem_of_asU64 ha,natItem_of_asU64 hb,natItem_of_asU64 hc,
          natItem_of_asU64 hd,natItem_of_asU64 he]
        rfl
      · simp only [ServiceCachePolicy.deserialize,Option.bind_eq_bind,Option.bind_eq_some_iff]
        exact ⟨(),rfl,some (evict.getD false),rfl,artifact,⟨a,rfl,ha⟩,max,⟨b,rfl,hb⟩,fills,⟨c,rfl,hc⟩,inflight,
          ⟨d,rfl,hd⟩,free,⟨e,rfl,he⟩,dif_pos hlt⟩
      · refine ⟨?_,?_⟩
        · simp only [Ascending,List.map_cons,List.map_nil]
          decide
        simp [TomlItem.OrderedEntries,TomlItem.Ordered,asU64_ordered ha,asU64_ordered hb,asU64_ordered hc,
          asU64_ordered hd,asU64_ordered he]
    · cases h
  | _ => cases h

theorem optional_some {α : Type} {f : TomlItem → Option α} {o : Option TomlItem} {a : α}
    (h : optional f o = some (some a)) : ∃ item, o = some item ∧ f item = some a := by
  cases o with
  | none => cases h
  | some item =>
    simp only [optional,Option.map_eq_some_iff,Option.some.injEq] at h
    obtain ⟨_,ha,rfl⟩ := h
    exact ⟨item,rfl,ha⟩

theorem optional_string (o : Option String) : optional TomlItem.asString (o.map .string) = some o := by
  cases o <;> rfl

theorem optional_bool (o : Option Bool) : optional TomlItem.asBool (o.map .boolean) = some o := by
  cases o <;> rfl

theorem optional_strings (o : Option (List String)) : optional TomlItem.asStrings (o.map stringsItem) = some o := by
  cases o with
  | none => rfl
  | some texts => simp only [Option.map_some,optional,stringsItem,asStrings_iff.mpr rfl]

/-- An optional policy is written and read again as it was. -/
theorem optional_policy {o : Option TomlItem} {cache : Option ServiceCachePolicy}
    (h : optional ServiceCachePolicy.deserialize o = some cache) :
    ∃ o', written ServiceCachePolicy.serialize cache = some o' ∧ optional ServiceCachePolicy.deserialize o' = some cache ∧
      ∀ item, o' = some item → item.Ordered := by
  cases cache with
  | none => exact ⟨none,rfl,rfl,by simp⟩
  | some policy =>
    obtain ⟨item,-,hitem⟩ := optional_some h
    obtain ⟨item',hser,hde,hord⟩ := policy_round hitem
    refine ⟨some item',by simp only [written,hser,Option.map_some],by simp only [optional,hde,Option.map_some],?_⟩
    rintro _ ⟨⟩
    exact hord

/-- An address is read again as it is printed. -/
theorem optional_address {o : Option TomlItem} {bind : Option String}
    (h : optional (fun item => item.asString.bind S.parse) o = some bind) :
    optional (fun item => item.asString.bind S.parse) (bind.map .string) = some bind := by
  cases bind with
  | none => rfl
  | some address =>
    obtain ⟨item,-,hitem⟩ := optional_some h
    obtain ⟨text,-,htext⟩ := Option.bind_eq_some_iff.mp hitem
    simp only [Option.map_some,optional,TomlItem.asString,Option.bind_some,S.parse_print text address htext]

theorem ordered_strings (texts : List String) : (stringsItem texts).Ordered := by
  refine TomlItem.orderedItems_iff.mpr fun item hitem => ?_
  obtain ⟨text,-,rfl⟩ := List.mem_map.mp hitem
  trivial

theorem ServiceConfig.ascending_fields (s : ServiceConfig) (cache : Option TomlItem) : Ascending (s.fields cache) := by
  have hkeys : (s.fields cache).map Prod.fst = ServiceConfig.names := rfl
  rw [Ascending,hkeys]
  decide

/-- A service that is read is written, and read again as it was. -/
theorem service_round {s : ServiceConfig} (h : ServiceConfig.deserialize S item = some s) :
    ∃ item', s.serialize = some item' ∧ ServiceConfig.deserialize S item' = some s ∧ item'.Ordered := by
  cases item with
  | table entries =>
    simp only [ServiceConfig.deserialize,Option.bind_eq_bind,Option.bind_eq_some_iff] at h
    obtain ⟨-,-,bind,hbind,bucket,-,cache,hcache,credentials,-,manifest,-,region,-,h⟩ := h
    cases h
    obtain ⟨cacheItem,hwritten,hread,hordered⟩ := optional_policy hcache
    have hasc := ServiceConfig.ascending_fields ⟨cache,manifest,bucket,region,bind,credentials⟩ cacheItem
    refine ⟨_,by simp only [ServiceConfig.serialize,hwritten]; rfl,?_,record_ordered hasc fun f hf item hitem => ?_⟩
    · simp only [ServiceConfig.deserialize,Option.bind_eq_bind,Option.bind_eq_some_iff,lookup_record hasc.nodup]
      exact ⟨(),if_pos (record_known _),bind,optional_address hbind,bucket,optional_string _,cache,hread,
        credentials,optional_strings _,manifest,optional_string _,region,optional_string _,rfl⟩
    · simp only [ServiceConfig.fields,List.mem_cons,List.not_mem_nil,or_false] at hf
      rcases hf with rfl | rfl | rfl | rfl | rfl | rfl
      · obtain ⟨_,-,rfl⟩ := Option.map_eq_some_iff.mp hitem
        trivial
      · obtain ⟨_,-,rfl⟩ := Option.map_eq_some_iff.mp hitem
        trivial
      · exact hordered item hitem
      · obtain ⟨texts,-,rfl⟩ := Option.map_eq_some_iff.mp hitem
        exact ordered_strings texts
      · obtain ⟨_,-,rfl⟩ := Option.map_eq_some_iff.mp hitem
        trivial
      · obtain ⟨_,-,rfl⟩ := Option.map_eq_some_iff.mp hitem
        trivial
  | _ => cases h

/-- The services that are read are written, and read again as they were. -/
theorem services_round {o : Option TomlItem} {services : AList fun _ : String => ServiceConfig}
    (hord : ∀ item, o = some item → item.Ordered) (h : DatastoreConfig.deserializeServices S o = some services) :
    ∃ item, DatastoreConfig.serializeServices services = some item ∧
      DatastoreConfig.deserializeServices S (some item) = some services ∧ item.Ordered := by
  have hround : ∀ (entries : List (String × TomlItem)) (l : List (Sigma fun _ : String => ServiceConfig)),
      (entries.mapM fun e => (ServiceConfig.deserialize S e.2).map fun service =>
        (⟨e.1,service⟩ : Sigma fun _ : String => ServiceConfig)) = some l →
      l.keys = entries.map Prod.fst ∧ ∃ entries', (l.mapM fun s => s.2.serialize.map fun item => (s.1,item)) =
        some entries' ∧ entries'.map Prod.fst = l.keys ∧ TomlItem.OrderedEntries entries' ∧
        (entries'.mapM fun e => (ServiceConfig.deserialize S e.2).map fun service =>
          (⟨e.1,service⟩ : Sigma fun _ : String => ServiceConfig)) = some l := by
    intro entries
    induction entries with
    | nil =>
      intro l hl
      cases hl
      exact ⟨rfl,[],rfl,rfl,trivial,rfl⟩
    | cons e entries ih =>
      intro l hl
      simp only [List.mapM_cons,Option.bind_eq_bind,Option.bind_eq_some_iff,Option.map_eq_some_iff] at hl
      obtain ⟨_,⟨s,hs,rfl⟩,l,hrest,hl⟩ := hl
      cases hl
      obtain ⟨hkeys,entries',hser,hkeys',hordered,hde⟩ := ih l hrest
      obtain ⟨item',hser',hde',hord'⟩ := service_round hs
      refine ⟨?_,(e.1,item') :: entries',?_,?_,⟨hord',hordered⟩,?_⟩
      · rw [List.keys_cons,hkeys,List.map_cons]
      · simp only [List.mapM_cons,hser',hser]
        rfl
      · rw [List.map_cons,hkeys',List.keys_cons]
      · simp only [List.mapM_cons,hde',hde]
        rfl
  cases o with
  | none =>
    cases h
    exact ⟨.table [],rfl,rfl,.nil,trivial⟩
  | some item =>
    cases item with
    | table entries =>
      simp only [DatastoreConfig.deserializeServices,Option.bind_eq_bind,Option.bind_eq_some_iff] at h
      obtain ⟨l,hl,h⟩ := h
      split at h
      · rename_i hnodup
        cases h
        obtain ⟨hkeys,entries',hser,hkeys',hordered,hde⟩ := hround entries l hl
        have hasc : (l.map Sigma.fst).Pairwise (· < ·) := by
          have hentries : Ascending entries := (hord _ rfl).1
          rw [Ascending,← hkeys] at hentries
          exact hentries
        have hsorted : (l.insertionSort fun a b => a.1 ≤ b.1) = l := by
          apply List.Pairwise.insertionSort_eq
          exact (List.pairwise_map.mp hasc).imp fun hlt => le_of_lt hlt
        refine ⟨.table entries',?_,?_,?_,hordered⟩
        · simp only [DatastoreConfig.serializeServices,hsorted,hser]
          rfl
        · simp only [DatastoreConfig.deserializeServices,hde]
          exact dif_pos hnodup
        · rw [Ascending,hkeys']
          exact hasc
      · cases h
    | _ => cases h

/-- The entries that are read are written as they were, if their floats are finite. -/
theorem credentials_round {malformed : List (String × JsonValue) → String} {items : List TomlItem}
    {credentials : List CredentialConfig} (hord : TomlItem.OrderedItems items)
    (h : items.mapM (CredentialConfig.deserialize malformed) = some credentials)
    (hhosts : ∀ c ∈ credentials, c.hosts ≠ []) :
    (credentials.mapM CredentialConfig.serialize = if items.all TomlItem.finite then some items else none) ∧
      (items.all TomlItem.finite = true ↔ ∀ payload ∈ items.filterMap unknownPayload,
        TomlItem.finiteEntries payload = true) := by
  induction items generalizing credentials with
  | nil =>
    cases h
    exact ⟨rfl,by simp⟩
  | cons item items ih =>
    simp only [List.mapM_cons,Option.bind_eq_bind,Option.bind_eq_some_iff] at h
    obtain ⟨c,hc,cs,hcs,h⟩ := h
    cases h
    obtain ⟨hser,hiff⟩ := ih hord.2 hcs fun c hc => hhosts c (List.mem_cons_of_mem _ hc)
    have hfirst := serialize_entry hord.1 hc (hhosts c (List.mem_cons_self ..))
    have hfinite := finite_entry hord.1 hc (hhosts c (List.mem_cons_self ..))
    constructor
    · rw [List.mapM_cons,hfirst,hser,List.all_cons]
      by_cases hi : item.finite = true <;> by_cases hr : items.all TomlItem.finite = true <;> simp [hi,hr]
    · rw [List.all_cons,Bool.and_eq_true,hfinite,hiff,List.filterMap_cons]
      cases hp : unknownPayload item with
      | none => simp
      | some payload => simp

end records
/-- What those of some entries hold that are of unknown type. -/
def unknownPayloads : Option TomlItem → List (List (String × TomlItem))
  | some (.array items) => items.filterMap unknownPayload
  | _ => []

def payloads (root : List (String × TomlItem)) : List (List (String × TomlItem)) :=
  unknownPayloads (root.lookup "credentials")

section config
variable {T : ConfigToml} {S : SocketText} {malformed : List (String × JsonValue) → String} {text : String}
  {c : DatastoreConfig} {root : List (String × TomlItem)}

theorem hosts_of_validate {names known : List String} {entries : List CredentialConfig}
    (h : DatastoreConfig.validateCredentials names entries = .ok known) : ∀ c ∈ entries, c.hosts ≠ [] := by
  induction entries generalizing names with
  | nil => simp
  | cons entry entries ih =>
    rw [DatastoreConfig.validateCredentials] at h
    split at h
    · cases h
    · obtain ⟨⟨⟩,hentry,hrest⟩ := bind_eq_ok.mp h
      refine List.forall_mem_cons.mpr ⟨fun hnil => ?_,ih hrest⟩
      obtain ⟨⟨⟩,hvalid,-⟩ := bind_eq_ok.mp hentry
      simp only [CredentialConfig.validate,List.not_mem_nil,if_false,hnil,List.isEmpty_nil,if_true] at hvalid
      split at hvalid <;> cases hvalid

theorem optional_nat {o : Option TomlItem} {n : Option ℕ} (h : optional TomlItem.asU64 o = some n) :
    ∃ o', written natItem n = some o' ∧ optional TomlItem.asU64 o' = some n ∧
      ∀ item, o' = some item → item.Ordered := by
  cases n with
  | none => exact ⟨none,rfl,rfl,by simp⟩
  | some n =>
    obtain ⟨item,-,hitem⟩ := optional_some h
    refine ⟨some item,by simp only [written,natItem_of_asU64 hitem,Option.map_some],
      by simp only [optional,hitem,Option.map_some],?_⟩
    rintro _ ⟨⟩
    exact asU64_ordered hitem

/-- The entries of a file that is read. -/
theorem credentials_read {o : Option TomlItem} {credentials : List CredentialConfig}
    (hord : ∀ item, o = some item → item.Ordered)
    (h : DatastoreConfig.deserializeCredentials malformed o = some credentials) : ∃ items,
      TomlItem.OrderedItems items ∧ items.mapM (CredentialConfig.deserialize malformed) = some credentials ∧
      unknownPayloads o = items.filterMap unknownPayload := by
  cases o with
  | none =>
    cases h
    exact ⟨[],trivial,rfl,rfl⟩
  | some item =>
    cases item with
    | array items => exact ⟨items,hord _ rfl,h,rfl⟩
    | _ => cases h

theorem DatastoreConfig.ascending_fields (c : DatastoreConfig) (max : Option TomlItem) (items : List TomlItem)
    (services : TomlItem) : Ascending (c.fields max items services) := by
  have hkeys : (c.fields max items services).map Prod.fst = DatastoreConfig.names := rfl
  rw [Ascending,hkeys]
  decide

/-- What is read of a file, with what is written of it. -/
theorem config_round (hord : (TomlItem.table root).Ordered) (h : DatastoreConfig.deserialize S malformed root = some c)
    (hhosts : ∀ entry ∈ c.credentials, entry.hosts ≠ []) : ∃ (items : List TomlItem) (root' : List (String × TomlItem)),
      payloads root = items.filterMap unknownPayload ∧ payloads root' = payloads root ∧
      (items.all TomlItem.finite = true ↔ ∀ payload ∈ items.filterMap unknownPayload,
        TomlItem.finiteEntries payload = true) ∧
      (c.serialize = if items.all TomlItem.finite then some root' else none) ∧ (TomlItem.table root').Ordered ∧
      DatastoreConfig.deserialize S malformed root' = some c := by
  obtain ⟨hasc,hordered⟩ := hord
  have hlookup : ∀ key item, root.lookup key = some item → item.Ordered := fun key item hl =>
    TomlItem.orderedEntries_iff.mp hordered _ ((lookup_iff_mem hasc.nodup).mp hl)
  simp only [DatastoreConfig.deserialize,Option.bind_eq_bind,Option.bind_eq_some_iff] at h
  obtain ⟨-,-,allow,-,dir,-,max,hmax,credentials,hcredentials,mirror,-,region,-,offline,-,services,hservices,hc⟩ := h
  cases hc
  obtain ⟨items,hitems,hmapM,hpayloads⟩ := credentials_read (hlookup _) hcredentials
  obtain ⟨hser,hfinite⟩ := credentials_round hitems hmapM hhosts
  obtain ⟨maxItem,hmaxItem,hmaxRead,hmaxOrdered⟩ := optional_nat hmax
  obtain ⟨servicesItem,hservicesItem,hservicesRead,hservicesOrdered⟩ := services_round (hlookup _) hservices
  have hasc' := DatastoreConfig.ascending_fields ⟨dir,mirror,region,allow,offline,max,credentials,services⟩ maxItem
    items servicesItem
  refine ⟨items,_,hpayloads,?_,hfinite,?_,record_ordered hasc' fun f hf item hitem => ?_,?_⟩
  · rw [payloads,lookup_record hasc'.nodup]
    exact hpayloads.symm
  · simp only [DatastoreConfig.serialize,hmaxItem,hser,hservicesItem]
    by_cases hall : items.all TomlItem.finite = true
    · rw [if_pos hall,if_pos hall]
      rfl
    · rw [if_neg hall,if_neg hall]
      rfl
  · simp only [DatastoreConfig.fields,List.mem_cons,List.not_mem_nil,or_false] at hf
    rcases hf with rfl | rfl | rfl | rfl | rfl | rfl | rfl | rfl
    · obtain ⟨_,-,rfl⟩ := Option.map_eq_some_iff.mp hitem
      trivial
    · obtain ⟨_,-,rfl⟩ := Option.map_eq_some_iff.mp hitem
      trivial
    · exact hmaxOrdered item hitem
    · cases hitem
      exact hitems
    · obtain ⟨_,-,rfl⟩ := Option.map_eq_some_iff.mp hitem
      trivial
    · obtain ⟨_,-,rfl⟩ := Option.map_eq_some_iff.mp hitem
      trivial
    · obtain ⟨_,-,rfl⟩ := Option.map_eq_some_iff.mp hitem
      trivial
    · cases hitem
      exact hservicesOrdered
  · simp only [DatastoreConfig.deserialize,Option.bind_eq_bind,Option.bind_eq_some_iff,lookup_record hasc'.nodup]
    exact ⟨(),if_pos (record_known _),allow,optional_bool _,dir,optional_string _,max,hmaxRead,credentials,
      hmapM,mirror,optional_string _,region,optional_string _,offline,optional_bool _,services,hservicesRead,rfl⟩

/-- A configuration that is accepted is written and read again as it was, what entries of
unknown type hold included, exactly when no float in those is infinite or not a number. -/
theorem config_round_trip_iff (h : DatastoreConfig.fromTomlStr T S malformed text = .ok c)
    (hroot : T.parse text = .ok root) :
    (∃ text' root', c.toTomlString T = .ok text' ∧ DatastoreConfig.fromTomlStr T S malformed text' = .ok c ∧
      T.parse text' = .ok root' ∧ payloads root' = payloads root) ↔
    ∀ payload ∈ payloads root, TomlItem.finiteEntries payload = true := by
  simp only [DatastoreConfig.fromTomlStr,hroot] at h
  cases hread : DatastoreConfig.deserialize S malformed root with
  | none =>
    rw [hread] at h
    cases h
  | some found =>
    rw [hread] at h
    obtain ⟨⟨⟩,hvalid,h⟩ := bind_eq_ok.mp h
    cases h
    have hhosts : ∀ entry ∈ c.credentials, entry.hosts ≠ [] := by
      obtain ⟨known,hknown,-⟩ := bind_eq_ok.mp hvalid
      exact hosts_of_validate hknown
    obtain ⟨items,root',hpayloads,hsame,hfinite,hser,hord,hagain⟩ :=
      config_round (T.parse_ordered text root hroot) hread hhosts
    rw [hpayloads,← hfinite]
    constructor
    · rintro ⟨text',-,htext,-⟩
      by_contra hno
      rw [DatastoreConfig.toTomlString,hser,if_neg hno] at htext
      cases htext
    · intro hall
      rw [if_pos hall] at hser
      have hparse := T.parse_print root' hord
      refine ⟨T.print root',root',by rw [DatastoreConfig.toTomlString,hser],?_,hparse,hsame.trans hpayloads⟩
      simp only [DatastoreConfig.fromTomlStr,hparse,hagain]
      rw [hvalid]
      rfl

end config
namespace TomlItem

mutual

/-- An item as a value; floats and dates are kept apart by a letter. -/
def toValue : TomlItem → TomlValue
  | .string s => .string s
  | .integer n => .integer n
  | .float text => .other ("f"++text)
  | .boolean b => .boolean b
  | .datetime text => .other ("d"++text)
  | .array items => .array (toValues items)
  | .table entries => .table (toFields entries)

def toValues : List TomlItem → List TomlValue
  | [] => []
  | item :: items => item.toValue :: toValues items

def toFields : List (String × TomlItem) → List (String × TomlValue)
  | [] => []
  | (key,item) :: entries => (key,item.toValue) :: toFields entries

end

mutual

theorem toValue_inj {x y : TomlItem} (h : x.toValue = y.toValue) : x = y := by
  cases x with
  | array xs =>
    cases y with
    | array ys =>
      simp only [toValue,TomlValue.array.injEq] at h
      rw [toValues_inj h]
    | _ => simp [toValue] at h
  | table xs =>
    cases y with
    | table ys =>
      simp only [toValue,TomlValue.table.injEq] at h
      rw [toFields_inj h]
    | _ => simp [toValue] at h
  | float text =>
    cases y with
    | float text' =>
      simp only [toValue,TomlValue.other.injEq] at h
      have hlist := congrArg String.toList h
      simp only [String.toList_append,List.append_cancel_left_eq] at hlist
      rw [String.toList_inj.mp hlist]
    | datetime text' =>
      simp only [toValue,TomlValue.other.injEq] at h
      have hlist := congrArg String.toList h
      simp at hlist
    | _ => simp [toValue] at h
  | datetime text =>
    cases y with
    | datetime text' =>
      simp only [toValue,TomlValue.other.injEq] at h
      have hlist := congrArg String.toList h
      simp only [String.toList_append,List.append_cancel_left_eq] at hlist
      rw [String.toList_inj.mp hlist]
    | float text' =>
      simp only [toValue,TomlValue.other.injEq] at h
      have hlist := congrArg String.toList h
      simp at hlist
    | _ => simp [toValue] at h
  | _ => cases y <;> simp_all [toValue]

theorem toValues_inj {xs ys : List TomlItem} (h : toValues xs = toValues ys) : xs = ys := by
  cases xs with
  | nil => cases ys <;> simp_all [toValues]
  | cons x xs =>
    cases ys with
    | nil => simp [toValues] at h
    | cons y ys =>
      simp only [toValues,List.cons.injEq] at h
      rw [toValue_inj h.1,toValues_inj h.2]

theorem toFields_inj {xs ys : List (String × TomlItem)} (h : toFields xs = toFields ys) : xs = ys := by
  cases xs with
  | nil =>
    cases ys with
    | nil => rfl
    | cons e ys => simp [toFields] at h
  | cons e xs =>
    obtain ⟨key,x⟩ := e
    cases ys with
    | nil => simp [toFields] at h
    | cons e ys =>
      obtain ⟨key',y⟩ := e
      simp only [toFields,List.cons.injEq,Prod.mk.injEq] at h
      rw [h.1.1,toValue_inj h.1.2,toFields_inj h.2]

end

end TomlItem

namespace ConfigToml

/-- A comment as long as the number of the table. -/
def comment (root : List (String × TomlItem)) : String :=
  String.ofList (List.replicate (TomlValue.fields (TomlItem.toFields root)) '#')

open Classical in
/-- One table has its usual text, every other one a comment. -/
noncomputable def shown (root : List (String × TomlItem)) (text : String) (t : List (String × TomlItem)) : String :=
  if t = root then text else comment t

theorem shown_inj {root t t' : List (String × TomlItem)} {text : String} (htext : ∃ c ∈ text.toList, c ≠ '#')
    (h : shown root text t = shown root text t') : t = t' := by
  have hcomment : ∀ t, text ≠ comment t := by
    rintro t rfl
    obtain ⟨c,hc,hne⟩ := htext
    simp only [comment,String.toList_ofList] at hc
    exact hne (List.eq_of_mem_replicate hc)
  unfold shown at h
  split at h <;> split at h
  · rename_i ht ht'
    rw [ht,ht']
  · exact absurd h (hcomment _)
  · exact absurd h.symm (hcomment _)
  · have hlength := congrArg List.length (String.ofList_injective h)
    rw [List.length_replicate,List.length_replicate] at hlength
    exact TomlItem.toFields_inj (TomlValue.fields_inj hlength)

open Classical in
/-- A crate that knows the text of one table. -/
noncomputable def knowing (root : List (String × TomlItem)) (text : String) (htext : ∃ c ∈ text.toList, c ≠ '#') :
    ConfigToml where
  parse s :=
    if h : ∃ t, (TomlItem.table t).Ordered ∧ s = shown root text t then .ok h.choose else .error none
  errorLine _ := none
  print := shown root text
  parse_ordered s t h := by
    split at h
    · rename_i hex
      cases h
      exact hex.choose_spec.1
    · cases h
  parse_print t ht := by
    have hex : ∃ t', (TomlItem.table t').Ordered ∧ shown root text t = shown root text t' := ⟨t,ht,rfl⟩
    rw [dif_pos hex,← shown_inj htext hex.choose_spec.2]

theorem knowing_parse {root : List (String × TomlItem)} {text : String} (htext : ∃ c ∈ text.toList, c ≠ '#')
    (hord : (TomlItem.table root).Ordered) : (knowing root text htext).parse text = .ok root := by
  have hshown : (knowing root text htext).print root = text := if_pos rfl
  have hparse := (knowing root text htext).parse_print root hord
  rwa [hshown] at hparse

end ConfigToml

/-- One entry of unknown type with a float in it. -/
def limitRoot (limit : String) : List (String × TomlItem) :=
  [("credentials",.array [.table [("hosts",.array [.string "future.example.org"]),("limit",.float limit),
    ("name",.string "future"),("type",.string "future-auth")]]),("services",.table [])]

def limitFields (limit : String) : String :=
  "hosts = [\"future.example.org\"]\nlimit = " ++ limit ++
    "\nname = \"future\"\ntype = \"future-auth\"\n\n[services]\n"

def limitText (limit : String) : String := "[[credentials]]\n" ++ limitFields limit

theorem limitText_shown (limit : String) : ∃ c ∈ (limitText limit).toList, c ≠ '#' := by
  have hmem : '[' ∈ "[[credentials]]\n".toList++(limitFields limit).toList := List.mem_append_left _ (by decide)
  rw [← String.toList_append] at hmem
  exact ⟨'[',hmem,by decide⟩

theorem limitRoot_ordered (limit : String) : (TomlItem.table (limitRoot limit)).Ordered := by
  refine ⟨?_,⟨⟨?_,⟨trivial,trivial⟩,trivial,trivial,trivial,trivial⟩,trivial⟩,⟨.nil,trivial⟩,trivial⟩
  · simp only [Ascending,limitRoot,List.map_cons,List.map_nil]
    decide
  · simp only [Ascending,List.map_cons,List.map_nil]
    decide

noncomputable def limitToml (limit : String) : ConfigToml :=
  .knowing (limitRoot limit) (limitText limit) (limitText_shown limit)

/-- No address is in the file. -/
def SocketText.unused : SocketText := ⟨fun _ => none,fun _ _ h => by cases h⟩

def limitConfig (limit : JsonValue) : DatastoreConfig :=
  ⟨none,none,none,none,none,none,[⟨"future",["future.example.org"],
    .unrecognized (.object [("limit",limit),("type",.string "future-auth")])⟩],∅⟩

theorem limit_accepted {limit : String} {value : JsonValue}
    (hread : DatastoreConfig.deserialize .unused (fun _ => "") (limitRoot limit) = some (limitConfig value))
    (hvalid : (limitConfig value).validate = .ok ()) :
    DatastoreConfig.fromTomlStr (limitToml limit) .unused (fun _ => "") (limitText limit) = .ok (limitConfig value) := by
  have hparse : (limitToml limit).parse (limitText limit) = .ok (limitRoot limit) :=
    ConfigToml.knowing_parse (limitText_shown limit) (limitRoot_ordered limit)
  simp only [DatastoreConfig.fromTomlStr,hparse,hread,hvalid]
  rfl

/-- An infinite limit is accepted, and then there is no text for the configuration. -/
theorem config_round_trip_blocked : ∃ (T : ConfigToml) (c : DatastoreConfig),
    DatastoreConfig.fromTomlStr T .unused (fun _ => "") (limitText "inf") = .ok c ∧
      c.toTomlString T = .error (.config "configuration cannot be represented as TOML") :=
  ⟨limitToml "inf",limitConfig .null,limit_accepted rfl rfl,rfl⟩

/-- A finite limit comes back. -/
theorem config_round_trip_finite : ∃ (T : ConfigToml) (text' : String),
    (limitConfig (.float "1.5")).toTomlString T = .ok text' ∧
      DatastoreConfig.fromTomlStr T .unused (fun _ => "") text' = .ok (limitConfig (.float "1.5")) := by
  have hparse := ConfigToml.knowing_parse (limitText_shown "1.5") (limitRoot_ordered "1.5")
  have hread : DatastoreConfig.fromTomlStr (limitToml "1.5") .unused (fun _ => "") (limitText "1.5") =
    .ok (limitConfig (.float "1.5")) := limit_accepted rfl rfl
  obtain ⟨text',root',htext,hagain,-⟩ := (config_round_trip_iff hread hparse).mpr (by decide)
  exact ⟨_,text',htext,hagain⟩

end StarfieldDatastore
