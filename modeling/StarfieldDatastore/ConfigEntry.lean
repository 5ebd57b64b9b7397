import StarfieldDatastore.ConfigText
import Mathlib.Data.String.Basic

/-! One credential entry through TOML and back. It is written as it was read, unless its type
is unknown and it holds a float that JSON does not have. -/
namespace StarfieldDatastore

namespace TomlItem

mutual

/-- No date is in it. -/
def dateless : TomlItem → Bool
  | .datetime _ => false
  | .array items => datelessItems items
  | .table entries => datelessEntries entries
  | _ => true

def datelessItems : List TomlItem → Bool
  | [] => true
  | item :: items => item.dateless && datelessItems items

def datelessEntries : List (String × TomlItem) → Bool
  | [] => true
  | (_,item) :: entries => item.dateless && datelessEntries entries

end

mutual

/-- A date is found in what JSON makes of an item. -/
theorem dateless_of_value (item : TomlItem) (h : item.value.containsTomlDatetime = false) : item.dateless = true := by
  cases item with
  | datetime text =>
    have hkey : (JsonValue.object [("$__toml_private_datetime",.string text)]).containsTomlDatetime = true := rfl
    rw [value,hkey] at h
    cases h
  | array items => exact datelessItems_of_values items h
  | table entries => exact datelessEntries_of_fields entries h
  | _ => rfl

theorem datelessItems_of_values (items : List TomlItem) (h : JsonValue.containsInValues (values items) = false) :
    datelessItems items = true := by
  cases items with
  | nil => rfl
  | cons item items =>
    simp only [values,JsonValue.containsInValues,Bool.or_eq_false_iff] at h
    simp only [datelessItems,dateless_of_value item h.1,datelessItems_of_values items h.2,Bool.and_self]

theorem datelessEntries_of_fields (entries : List (String × TomlItem))
    (h : JsonValue.containsInEntries (fields entries) = false) : datelessEntries entries = true := by
  cases entries with
  | nil => rfl
  | cons e entries =>
    obtain ⟨key,item⟩ := e
    simp only [fields,JsonValue.containsInEntries,Bool.or_eq_false_iff] at h
    simp only [datelessEntries,dateless_of_value item h.1.2,datelessEntries_of_fields entries h.2,Bool.and_self]

end

theorem ofInt_val (n : I64) : I64.ofInt n.val = some n := dif_pos n.property

mutual

/-- What JSON makes of an item is written as the item, if its floats are finite, and cannot
be written at all otherwise. -/
theorem item_value (x : TomlItem) (h : x.dateless = true) : x.value.item = if x.finite then some x else none := by
  cases x with
  | datetime text => cases h
  | string s => rfl
  | boolean b => rfl
  | integer n => simp [value,JsonValue.item,ofInt_val,finite]
  | float text =>
    simp only [value,finite]
    by_cases hf : isFinite text = true <;> simp [hf,JsonValue.item]
  | array items =>
    simp only [value,JsonValue.item,finite,items_values items h]
    by_cases hf : finiteItems items = true <;> simp [hf]
  | table entries =>
    simp only [value,JsonValue.item,finite,fieldItems_fields entries h]
    by_cases hf : finiteEntries entries = true <;> simp [hf]

theorem items_values (xs : List TomlItem) (h : datelessItems xs = true) :
    JsonValue.items (values xs) = if finiteItems xs then some xs else none := by
  cases xs with
  | nil => rfl
  | cons x xs =>
    simp only [datelessItems,Bool.and_eq_true] at h
    simp only [values,JsonValue.items,item_value x h.1,items_values xs h.2,finiteItems]
    by_cases hx : x.finite = true <;> by_cases hxs : finiteItems xs = true <;> simp [hx,hxs]

theorem fieldItems_fields (xs : List (String × TomlItem)) (h : datelessEntries xs = true) :
    JsonValue.fieldItems (fields xs) = if finiteEntries xs then some xs else none := by
  cases xs with
  | nil => rfl
  | cons e xs =>
    obtain ⟨key,x⟩ := e
    simp only [datelessEntries,Bool.and_eq_true] at h
    simp only [fields,JsonValue.fieldItems,item_value x h.1,fieldItems_fields xs h.2,finiteEntries]
    by_cases hx : x.finite = true <;> by_cases hxs : finiteEntries xs = true <;> simp [hx,hxs]

end

theorem fields_eq_map (entries : List (String × TomlItem)) :
    fields entries = entries.map fun e => (e.1,e.2.value) := by
  induction entries with
  | nil => rfl
  | cons e entries ih =>
    obtain ⟨key,item⟩ := e
    rw [fields,ih,List.map_cons]

theorem datelessEntries_iff {entries : List (String × TomlItem)} :
    datelessEntries entries = true ↔ ∀ e ∈ entries, e.2.dateless = true := by
  induction entries with
  | nil => simp [datelessEntries]
  | cons e entries ih =>
    obtain ⟨key,item⟩ := e
    simp [datelessEntries,ih]

theorem finiteEntries_iff {entries : List (String × TomlItem)} :
    finiteEntries entries = true ↔ ∀ e ∈ entries, e.2.finite = true := by
  induction entries with
  | nil => simp [finiteEntries]
  | cons e entries ih =>
    obtain ⟨key,item⟩ := e
    simp [finiteEntries,ih]

theorem orderedEntries_iff {entries : List (String × TomlItem)} :
    OrderedEntries entries ↔ ∀ e ∈ entries, e.2.Ordered := by
  induction entries with
  | nil => simp [OrderedEntries]
  | cons e entries ih =>
    obtain ⟨key,item⟩ := e
    simp [OrderedEntries,ih]

theorem orderedItems_iff {items : List TomlItem} : OrderedItems items ↔ ∀ item ∈ items, item.Ordered := by
  induction items with
  | nil => simp [OrderedItems]
  | cons item items ih => simp [OrderedItems,ih]

end TomlItem

section maps
variable {α β : Type} {l l' : List (String × α)} {key : String} {a : α}

theorem Ascending.nodup (h : Ascending l) : (l.map Prod.fst).Nodup := by
  unfold Ascending at h
  exact h.imp fun hlt => ne_of_lt hlt

/-- A map is its members. -/
theorem Ascending.ext (h : Ascending l) (h' : Ascending l') (hmem : ∀ e, e ∈ l ↔ e ∈ l') : l = l' := by
  have hl : l.Pairwise fun a b => a.1 < b.1 := List.pairwise_map.mp h
  have hl' : l'.Pairwise fun a b => a.1 < b.1 := List.pairwise_map.mp h'
  have hnodup : l.Nodup := hl.imp fun {a b} hlt he => by rw [he] at hlt; exact lt_irrefl _ hlt
  have hnodup' : l'.Nodup := hl'.imp fun {a b} hlt he => by rw [he] at hlt; exact lt_irrefl _ hlt
  have hperm : l.Perm l' := (List.perm_ext_iff_of_nodup hnodup hnodup').mpr hmem
  exact hperm.eq_of_pairwise (fun a b _ _ hab hba => absurd (hab.trans hba) (lt_irrefl _)) hl hl'

theorem mem_insertKey (h : key ∉ l.map Prod.fst) (e : String × α) :
    e ∈ insertKey key a l ↔ e = (key,a) ∨ e ∈ l := by
  induction l with
  | nil => simp [insertKey]
  | cons e' l ih =>
    obtain ⟨key',a'⟩ := e'
    simp only [List.map_cons,List.mem_cons,not_or] at h
    rw [insertKey]
    split
    · simp
    · rw [if_neg h.1,List.mem_cons,ih h.2,List.mem_cons]
      tauto

theorem ascending_insertKey (h : Ascending l) (key : String) (a : α) (hkey : key ∉ l.map Prod.fst) :
    Ascending (insertKey key a l) := by
  induction l with
  | nil => exact List.pairwise_singleton _ _
  | cons e l ih =>
    obtain ⟨key',a'⟩ := e
    simp only [List.map_cons,List.mem_cons,not_or] at hkey
    obtain ⟨hfirst,hrest⟩ := List.pairwise_cons.mp h
    rw [insertKey]
    split
    · rename_i hlt
      refine List.pairwise_cons.mpr ⟨fun k hk => ?_,h⟩
      rcases List.mem_cons.mp hk with rfl | hk
      · exact hlt
      · exact hlt.trans (hfirst k hk)
    · rename_i hge
      rw [if_neg hkey.1]
      refine List.pairwise_cons.mpr ⟨fun k hk => ?_,ih hrest hkey.2⟩
      obtain ⟨e,he,rfl⟩ := List.mem_map.mp hk
      rcases (mem_insertKey hkey.2 e).mp he with rfl | he
      · exact lt_of_le_of_ne (not_lt.mp hge) (Ne.symm hkey.1)
      · exact hfirst e.1 (List.mem_map.mpr ⟨e,he,rfl⟩)

@[simp] theorem keys_insertKey (k : String) : k ∈ (insertKey key a l).map Prod.fst ↔ k = key ∨ k ∈ l.map Prod.fst := by
  induction l with
  | nil => simp [insertKey]
  | cons e l ih =>
    obtain ⟨key',a'⟩ := e
    rw [insertKey]
    split
    · simp
    · split
      · rename_i he
        subst he
        simp
      · rw [List.map_cons,List.mem_cons,ih,List.map_cons,List.mem_cons]
        tauto

end maps

section sources
variable {malformed : List (String × JsonValue) → String} {name : String} {raw map : List (String × JsonValue)}
  {source : CredentialSource}

/-- The source that the fields of an entry stand for. -/
inductive Decoded (raw : List (String × JsonValue)) : CredentialSource → Prop
  | env (variable_) (hkind : raw.lookup "type" = some (.string "env"))
      (h : raw.filter (fun e => e.1 ≠ "type") = [("variable",.string variable_)]) : Decoded raw (.env variable_)
  | basic (username passwordEnv) (hkind : raw.lookup "type" = some (.string "basic"))
      (h : raw.filter (fun e => e.1 ≠ "type") = [("password_env",.string passwordEnv),("username",.string username)]) :
      Decoded raw (.basic username passwordEnv)
  | netrc (hkind : raw.lookup "type" = some (.string "netrc")) (h : raw.filter (fun e => e.1 ≠ "type") = []) :
      Decoded raw .netrc
  | onePassword (reference) (hkind : raw.lookup "type" = some (.string "onepassword"))
      (h : raw.filter (fun e => e.1 ≠ "type") = [("reference",.string reference)]) : Decoded raw (.onePassword reference)
  | unrecognized (kind) (hkind : raw.lookup "type" = some (.string kind))
      (h : kind ∉ ["env","basic","netrc","onepassword"])
      (hd : (JsonValue.object raw).containsTomlDatetime = false) : Decoded raw (.unrecognized (.object raw))

theorem decoded_of_ok (h : decodeSource malformed name raw = .ok source) : Decoded raw source := by
  unfold decodeSource at h
  split at h
  · rename_i kind hkind
    split at h
    · rename_i hunknown
      split at h
      · cases h
      · rename_i hd
        cases h
        exact .unrecognized kind hkind hunknown (by simpa using hd)
    · split at h
      · cases h
      · split at h
        · rename_i hkind _ _ _ hf _
          cases h
          exact .env _ hkind hf
        · rename_i hkind _ _ _ hf _
          cases h
          exact .basic _ _ hkind hf
        · rename_i hkind _ _ _ hf _
          cases h
          exact .netrc hkind hf
        · rename_i hkind _ _ _ hf _
          cases h
          exact .onePassword _ hkind hf
        · cases h
  · cases h
  · cases h

theorem insertFields_ok (fields : List (String × JsonValue)) (hmap : Ascending map) (hn : (fields.map Prod.fst).Nodup)
    (hout : ∀ k ∈ fields.map Prod.fst, k ∉ map.map Prod.fst) (hname : "name" ∈ map.map Prod.fst)
    (hhosts : "hosts" ∈ map.map Prod.fst) : ∃ all, CredentialConfig.insertFields name map fields = .ok all ∧
      Ascending all ∧ ∀ e, e ∈ all ↔ e ∈ map ∨ e ∈ fields := by
  induction fields generalizing map with
  | nil => exact ⟨map,rfl,hmap,fun e => by simp⟩
  | cons e fields ih =>
    obtain ⟨key,value⟩ := e
    obtain ⟨hne,hn⟩ := List.nodup_cons.mp hn
    have hkey : key ∉ map.map Prod.fst := hout key (by simp)
    have hkeep : ¬ (key = "name" || key = "hosts") = true := by
      simp only [Bool.or_eq_true,decide_eq_true_eq,not_or]
      exact ⟨fun he => hkey (he ▸ hname),fun he => hkey (he ▸ hhosts)⟩
    have hout' : ∀ k ∈ fields.map Prod.fst, k ∉ (insertKey key value map).map Prod.fst := by
      intro k hk
      rw [keys_insertKey,not_or]
      exact ⟨fun he => hne (he ▸ hk),hout k (by simp [hk])⟩
    obtain ⟨all,hall,hasc,hmem⟩ := ih (ascending_insertKey hmap key value hkey) hn hout'
      ((keys_insertKey _).mpr (.inr hname)) ((keys_insertKey _).mpr (.inr hhosts))
    refine ⟨all,by rw [CredentialConfig.insertFields,if_neg hkeep,hall],hasc,fun e => ?_⟩
    rw [hmem,mem_insertKey hkey,List.mem_cons]
    tauto

/-- With its type, the fields of an entry are the ones that its source stands for. -/
theorem mem_of_kind {kind : String} {fields : List (String × JsonValue)} (hasc : Ascending raw)
    (hkind : raw.lookup "type" = some (.string kind)) (hf : raw.filter (fun e => e.1 ≠ "type") = fields)
    (e : String × JsonValue) : e ∈ raw ↔ e = ("type",.string kind) ∨ e ∈ fields := by
  have htype : ("type",JsonValue.string kind) ∈ raw := (lookup_iff_mem hasc.nodup).mp hkind
  rw [← hf,List.mem_filter,decide_eq_true_eq]
  constructor
  · intro he
    by_cases hk : e.1 = "type"
    · obtain ⟨key,value⟩ := e
      cases hk
      have := (lookup_iff_mem hasc.nodup).mpr he
      cases hkind.symm.trans this
      exact .inl rfl
    · exact .inr ⟨he,hk⟩
  · rintro (rfl | ⟨he,-⟩)
    · exact htype
    · exact he

/-- Nothing that is accepted is a date. -/
theorem Decoded.dateless (h : Decoded raw source) (hasc : Ascending raw) :
    ∀ e ∈ raw, e.2.containsTomlDatetime = false := by
  intro e he
  cases h with
  | env variable_ hkind hf =>
    have hmem := (mem_of_kind hasc hkind hf e).mp he
    simp only [List.mem_singleton] at hmem
    rcases hmem with rfl | rfl <;> rfl
  | basic username passwordEnv hkind hf =>
    have hmem := (mem_of_kind hasc hkind hf e).mp he
    simp only [List.mem_cons,List.not_mem_nil,or_false] at hmem
    rcases hmem with rfl | rfl | rfl <;> rfl
  | netrc hkind hf =>
    have hmem := (mem_of_kind hasc hkind hf e).mp he
    simp only [List.not_mem_nil,or_false] at hmem
    subst hmem
    rfl
  | onePassword reference hkind hf =>
    have hmem := (mem_of_kind hasc hkind hf e).mp he
    simp only [List.mem_singleton] at hmem
    rcases hmem with rfl | rfl <;> rfl
  | unrecognized kind hkind h hd =>
    have hall : ∀ l, JsonValue.containsInEntries l = false → ∀ e ∈ l, e.2.containsTomlDatetime = false := by
      intro l hl
      induction l with
      | nil => simp
      | cons e l ih =>
        obtain ⟨key,value⟩ := e
        simp only [JsonValue.containsInEntries,Bool.or_eq_false_iff] at hl
        exact List.forall_mem_cons.mpr ⟨hl.1.2,ih hl.2⟩
    exact hall raw hd e he

/-- An entry is written with its name, its hosts and the fields that its source stands for. -/
theorem serializeMap_ok {hosts : List String} (h : Decoded raw source) (hasc : Ascending raw)
    (hname : "name" ∉ raw.map Prod.fst) (hhosts : "hosts" ∉ raw.map Prod.fst) :
    ∃ map, CredentialConfig.serializeMap ⟨name,hosts,source⟩ = .ok map ∧ Ascending map ∧
      ∀ e, e ∈ map ↔ e = ("name",.string name) ∨ e = ("hosts",.array (hosts.map .string)) ∨ e ∈ raw := by
  have hone : Ascending [("name",JsonValue.string name)] := List.pairwise_singleton _ _
  have hbase : Ascending (insertKey "hosts" (.array (hosts.map .string)) [("name",JsonValue.string name)]) :=
    ascending_insertKey hone _ _ (by simp)
  have hmem : ∀ e, e ∈ insertKey "hosts" (.array (hosts.map .string)) [("name",JsonValue.string name)] ↔
      e = ("name",.string name) ∨ e = ("hosts",.array (hosts.map .string)) := by
    intro e
    rw [mem_insertKey (by simp),List.mem_singleton,or_comm]
  have htype : ∀ kind : String, Ascending (insertKey "type" (.string kind) (insertKey "hosts"
      (.array (hosts.map .string)) [("name",JsonValue.string name)])) :=
    fun kind => ascending_insertKey hbase _ _ (by simp)
  have hmemType : ∀ (kind : String) e, e ∈ insertKey "type" (.string kind) (insertKey "hosts"
      (.array (hosts.map .string)) [("name",JsonValue.string name)]) ↔ e = ("type",.string kind) ∨
        e = ("name",.string name) ∨ e = ("hosts",.array (hosts.map .string)) := by
    intro kind e
    rw [mem_insertKey (by simp),hmem]
  cases h with
  | env variable_ hkind hf =>
    refine ⟨_,rfl,ascending_insertKey (htype _) _ _ (by simp),fun e => ?_⟩
    rw [mem_insertKey (by simp),hmemType,mem_of_kind hasc hkind hf,List.mem_singleton]
    tauto
  | basic username passwordEnv hkind hf =>
    refine ⟨_,rfl,ascending_insertKey (ascending_insertKey (htype _) _ _ (by simp)) _ _ (by simp),fun e => ?_⟩
    rw [mem_insertKey (by simp),mem_insertKey (by simp),hmemType,mem_of_kind hasc hkind hf,List.mem_cons,
      List.mem_singleton]
    tauto
  | netrc hkind hf =>
    refine ⟨_,rfl,htype _,fun e => ?_⟩
    rw [hmemType,mem_of_kind hasc hkind hf]
    simp only [List.not_mem_nil,or_false]
    tauto
  | onePassword reference hkind hf =>
    refine ⟨_,rfl,ascending_insertKey (htype _) _ _ (by simp),fun e => ?_⟩
    rw [mem_insertKey (by simp),hmemType,mem_of_kind hasc hkind hf,List.mem_singleton]
    tauto
  | unrecognized kind hkind h hd =>
    have hout : ∀ k ∈ raw.map Prod.fst,
        k ∉ (insertKey "hosts" (.array (hosts.map .string)) [("name",JsonValue.string name)]).map Prod.fst := by
      intro k hk
      simp only [keys_insertKey,List.map_cons,List.map_nil,List.mem_singleton,not_or]
      exact ⟨fun he => hhosts (he ▸ hk),fun he => hname (he ▸ hk)⟩
    obtain ⟨all,hall,hsorted,hmembers⟩ := insertFields_ok raw hbase hasc.nodup hout (by simp) (by simp)
    refine ⟨all,hall,hsorted,fun e => ?_⟩
    rw [hmembers,hmem,or_assoc]

end sources

theorem asStrings_iff {item : TomlItem} {texts : List String} :
    item.asStrings = some texts ↔ item = .array (texts.map .string) := by
  have hall : ∀ (items : List TomlItem) (texts : List String), items.mapM TomlItem.asString = some texts ↔
      items = texts.map .string := by
    intro items
    induction items with
    | nil => intro texts; cases texts <;> simp
    | cons item items ih =>
      intro texts
      rw [List.mapM_cons]
      cases item <;> cases texts <;> simp [TomlItem.asString,ih,Option.bind_eq_some_iff,and_comm]
  cases item <;> simp [TomlItem.asStrings,hall]

section entries
variable {malformed : List (String × JsonValue) → String} {c : CredentialConfig} {item : TomlItem}
  {entries : List (String × TomlItem)}

/-- What is read of an entry. -/
theorem deserialize_entry (h : CredentialConfig.deserialize malformed item = some c) (hhosts : c.hosts ≠ []) :
    ∃ entries, item = .table entries ∧ entries.lookup "name" = some (.string c.name) ∧
      entries.lookup "hosts" = some (.array (c.hosts.map .string)) ∧
      Decoded (TomlItem.fields (entries.filter fun e => e.1 ≠ "name" && e.1 ≠ "hosts")) c.source := by
  cases item with
  | table entries =>
    simp only [CredentialConfig.deserialize,Option.bind_eq_bind,Option.bind_eq_some_iff] at h
    obtain ⟨name,⟨nameItem,hname,hstring⟩,hosts,hlisted,source,hsource,h⟩ := h
    cases h
    refine ⟨entries,rfl,?_,?_,?_⟩
    · cases nameItem <;> simp [TomlItem.asString] at hstring
      rw [hname,hstring]
    · cases hl : entries.lookup "hosts" with
      | none =>
        rw [hl] at hlisted
        exact absurd (Option.some.inj hlisted).symm hhosts
      | some hostsItem =>
        rw [hl] at hlisted
        rw [asStrings_iff.mp hlisted]
    · cases hd : decodeSource malformed name
          (TomlItem.fields (entries.filter fun e => e.1 ≠ "name" && e.1 ≠ "hosts")) with
      | error e =>
        rw [hd] at hsource
        cases hsource
      | ok found =>
        rw [hd] at hsource
        cases hsource
        exact decoded_of_ok hd
  | _ => cases h

theorem ascending_fields (h : Ascending entries) : Ascending (TomlItem.fields entries) := by
  have hkeys : (TomlItem.fields entries).map Prod.fst = entries.map Prod.fst := by
    rw [TomlItem.fields_eq_map,List.map_map]
    rfl
  rwa [Ascending,hkeys]

theorem dateless_strings (texts : List String) : TomlItem.dateless (.array (texts.map .string)) = true := by
  have hall : TomlItem.datelessItems (texts.map .string) = true := by
    induction texts with
    | nil => rfl
    | cons text texts ih => simp [TomlItem.datelessItems,TomlItem.dateless,ih]
  exact hall

theorem value_strings (texts : List String) :
    TomlItem.value (.array (texts.map .string)) = .array (texts.map .string) := by
  have hall : TomlItem.values (texts.map .string) = texts.map .string := by
    induction texts with
    | nil => rfl
    | cons text texts ih => simp [TomlItem.values,TomlItem.value,ih]
  rw [TomlItem.value,hall]

theorem mem_rest {e : String × TomlItem} : e ∈ entries.filter (fun e => e.1 ≠ "name" && e.1 ≠ "hosts") ↔
    e ∈ entries ∧ e.1 ≠ "name" ∧ e.1 ≠ "hosts" := by
  simp [List.mem_filter]

/-- An entry is its name, its hosts and the rest. -/
theorem entry_parts {name hosts : TomlItem} (hasc : Ascending entries) (hname : entries.lookup "name" = some name)
    (hhosts : entries.lookup "hosts" = some hosts) (e : String × TomlItem) : e ∈ entries ↔ e = ("name",name) ∨
      e = ("hosts",hosts) ∨ e ∈ entries.filter (fun e => e.1 ≠ "name" && e.1 ≠ "hosts") := by
  rw [mem_rest]
  constructor
  · intro he
    obtain ⟨key,x⟩ := e
    have hl := (lookup_iff_mem hasc.nodup).mpr he
    by_cases hn : key = "name"
    · subst hn
      cases hname.symm.trans hl
      exact .inl rfl
    · by_cases hh : key = "hosts"
      · subst hh
        cases hhosts.symm.trans hl
        exact .inr (.inl rfl)
      · exact .inr (.inr ⟨he,hn,hh⟩)
  · rintro (rfl | rfl | ⟨he,-⟩)
    · exact (lookup_iff_mem hasc.nodup).mp hname
    · exact (lookup_iff_mem hasc.nodup).mp hhosts
    · exact he

/-- An entry that is read and lists a host is written as it was, if its floats are finite. -/
theorem serialize_entry (hord : item.Ordered) (h : CredentialConfig.deserialize malformed item = some c)
    (hhosts : c.hosts ≠ []) : c.serialize = if item.finite then some item else none := by
  obtain ⟨entries,rfl,hname,hlisted,hdecoded⟩ := deserialize_entry h hhosts
  obtain ⟨hasc,-⟩ := hord
  have hascRaw : Ascending (TomlItem.fields (entries.filter fun e => e.1 ≠ "name" && e.1 ≠ "hosts")) :=
    ascending_fields (List.Pairwise.sublist (List.filter_sublist.map _) hasc)
  have hnameIn := (lookup_iff_mem hasc.nodup).mp hname
  have hhostsIn := (lookup_iff_mem hasc.nodup).mp hlisted
  have hpart := entry_parts hasc hname hlisted
  have hout : ∀ k ∈ (TomlItem.fields (entries.filter fun e => e.1 ≠ "name" && e.1 ≠ "hosts")).map Prod.fst,
      k ≠ "name" ∧ k ≠ "hosts" := by
    intro k hk
    rw [TomlItem.fields_eq_map,List.map_map] at hk
    obtain ⟨e,he,rfl⟩ := List.mem_map.mp hk
    exact (mem_rest.mp he).2
  obtain ⟨map,hmap,hsorted,hmem⟩ : ∃ map, c.serializeMap = .ok map ∧ Ascending map ∧ ∀ e, e ∈ map ↔ _ :=
    serializeMap_ok hdecoded hascRaw (fun hk => (hout _ hk).1 rfl) (fun hk => (hout _ hk).2 rfl)
  have hdateless : (TomlItem.table entries).dateless = true := by
    refine TomlItem.datelessEntries_iff.mpr fun e he => ?_
    rcases (hpart e).mp he with rfl | rfl | hr
    · rfl
    · exact dateless_strings _
    · apply TomlItem.dateless_of_value
      refine hdecoded.dateless hascRaw (e.1,e.2.value) ?_
      rw [TomlItem.fields_eq_map]
      exact List.mem_map.mpr ⟨e,hr,rfl⟩
  have hfields : map = TomlItem.fields entries := by
    refine hsorted.ext (ascending_fields hasc) fun e => ?_
    rw [hmem,TomlItem.fields_eq_map,TomlItem.fields_eq_map,List.mem_map,List.mem_map]
    constructor
    · rintro (rfl | rfl | ⟨x,hx,rfl⟩)
      · exact ⟨_,hnameIn,rfl⟩
      · exact ⟨_,hhostsIn,by rw [value_strings]⟩
      · exact ⟨x,(hpart x).mpr (.inr (.inr hx)),rfl⟩
    · rintro ⟨x,hx,rfl⟩
      rcases (hpart x).mp hx with rfl | rfl | hr
      · exact .inl rfl
      · exact .inr (.inl (by rw [value_strings]))
      · exact .inr (.inr ⟨x,hr,rfl⟩)
  have hserialize : c.serialize = (TomlItem.table entries).value.item := by
    rw [CredentialConfig.serialize,hmap,hfields]
    rfl
  rw [hserialize,TomlItem.item_value _ hdateless]

/-- The fields of an entry of unknown type, as they stand in the file. -/
def unknownPayload : TomlItem → Option (List (String × TomlItem))
  | .table entries =>
    match entries.lookup "type" with
    | some (.string kind) =>
      if kind ∈ ["env","basic","netrc","onepassword"] then none
      else some (entries.filter fun e => e.1 ≠ "name" && e.1 ≠ "hosts")
    | _ => none
  | _ => none

theorem value_eq_string {x : TomlItem} {s : String} (h : x.value = .string s) : x = .string s := by
  cases x with
  | string s' => simpa [TomlItem.value] using h
  | float text =>
    rw [TomlItem.value] at h
    split at h <;> cases h
  | _ => cases h

theorem finite_strings (texts : List String) : TomlItem.finite (.array (texts.map .string)) = true := by
  have hall : TomlItem.finiteItems (texts.map .string) = true := by
    induction texts with
    | nil => rfl
    | cons text texts ih => simp [TomlItem.finiteItems,TomlItem.finite,ih]
  exact hall

theorem lookup_rest {key : String} {x : JsonValue} (hasc : Ascending entries)
    (h : (TomlItem.fields (entries.filter fun e => e.1 ≠ "name" && e.1 ≠ "hosts")).lookup key = some x) :
    ∃ item, entries.lookup key = some item ∧ item.value = x := by
  have hascRaw : Ascending (TomlItem.fields (entries.filter fun e => e.1 ≠ "name" && e.1 ≠ "hosts")) :=
    ascending_fields (List.Pairwise.sublist (List.filter_sublist.map _) hasc)
  have hmem := (lookup_iff_mem hascRaw.nodup).mp h
  rw [TomlItem.fields_eq_map] at hmem
  obtain ⟨⟨key',item⟩,he,heq⟩ := List.mem_map.mp hmem
  cases heq
  exact ⟨item,(lookup_iff_mem hasc.nodup).mpr (mem_rest.mp he).1,rfl⟩

/-- Only what an entry of unknown type holds can be infinite or not a number. -/
theorem finite_entry (hord : item.Ordered) (h : CredentialConfig.deserialize malformed item = some c)
    (hhosts : c.hosts ≠ []) : item.finite = true ↔ ∀ payload, unknownPayload item = some payload →
      TomlItem.finiteEntries payload = true := by
  obtain ⟨entries,rfl,hname,hlisted,hdecoded⟩ := deserialize_entry h hhosts
  obtain ⟨hasc,-⟩ := hord
  have hpart := entry_parts hasc hname hlisted
  have hascRaw : Ascending (TomlItem.fields (entries.filter fun e => e.1 ≠ "name" && e.1 ≠ "hosts")) :=
    ascending_fields (List.Pairwise.sublist (List.filter_sublist.map _) hasc)
  have hiff : (TomlItem.table entries).finite = true ↔
      ∀ e ∈ entries.filter (fun e => e.1 ≠ "name" && e.1 ≠ "hosts"), e.2.finite = true := by
    refine TomlItem.finiteEntries_iff.trans ⟨fun hall e he => hall e (mem_rest.mp he).1,fun hall e he => ?_⟩
    rcases (hpart e).mp he with rfl | rfl | hr
    · rfl
    · exact finite_strings _
    · exact hall e hr
  have hkind : ∀ kind, (TomlItem.fields (entries.filter fun e => e.1 ≠ "name" && e.1 ≠ "hosts")).lookup "type" =
      some (.string kind) → entries.lookup "type" = some (.string kind) := by
    intro kind hk
    obtain ⟨x,hx,hvalue⟩ := lookup_rest hasc hk
    rw [hx,value_eq_string hvalue]
  have hknown : ∀ kind fields, kind ∈ ["env","basic","netrc","onepassword"] →
      (TomlItem.fields (entries.filter fun e => e.1 ≠ "name" && e.1 ≠ "hosts")).lookup "type" = some (.string kind) →
      (TomlItem.fields (entries.filter fun e => e.1 ≠ "name" && e.1 ≠ "hosts")).filter (fun e => e.1 ≠ "type") = fields →
      (∀ e ∈ fields, ∃ s, e.2 = .string s) → ((TomlItem.table entries).finite = true ↔
        ∀ payload, unknownPayload (.table entries) = some payload → TomlItem.finiteEntries payload = true) := by
    intro kind fields hmem hk hf hstrings
    have hnone : unknownPayload (.table entries) = none := by
      simp only [unknownPayload,hkind kind hk,if_pos hmem]
    rw [hnone,hiff]
    refine ⟨fun _ _ hp => (nomatch hp),fun _ e he => ?_⟩
    have hin : (e.1,e.2.value) ∈ TomlItem.fields (entries.filter fun e => e.1 ≠ "name" && e.1 ≠ "hosts") := by
      rw [TomlItem.fields_eq_map]
      exact List.mem_map.mpr ⟨e,he,rfl⟩
    obtain ⟨s,hs⟩ : ∃ s, e.2.value = .string s := by
      rcases (mem_of_kind hascRaw hk hf _).mp hin with heq | hin
      · exact ⟨kind,congrArg Prod.snd heq⟩
      · exact hstrings _ hin
    rw [value_eq_string hs]
    rfl
  cases hs : c.source with
  | env variable_ =>
    rw [hs] at hdecoded
    cases hdecoded with
    | env _ hk hf => exact hknown "env" _ (by simp) hk hf (by simp)
  | basic username passwordEnv =>
    rw [hs] at hdecoded
    cases hdecoded with
    | basic _ _ hk hf => exact hknown "basic" _ (by simp) hk hf (by simp)
  | netrc =>
    rw [hs] at hdecoded
    cases hdecoded with
    | netrc hk hf => exact hknown "netrc" _ (by simp) hk hf (by simp)
  | onePassword reference =>
    rw [hs] at hdecoded
    cases hdecoded with
    | onePassword _ hk hf => exact hknown "onepassword" _ (by simp) hk hf (by simp)
  | unrecognized raw =>
    rw [hs] at hdecoded
    cases hdecoded with
    | unrecognized kind hk hunknown hd =>
      have hsome : unknownPayload (.table entries) =
          some (entries.filter fun e => e.1 ≠ "name" && e.1 ≠ "hosts") := by
        simp only [unknownPayload,hkind kind hk,if_neg hunknown]
      rw [hsome,hiff,← TomlItem.finiteEntries_iff]
      exact ⟨fun hall payload hp => by cases hp; exact hall,fun hall => hall _ rfl⟩

end entries

end StarfieldDatastore
