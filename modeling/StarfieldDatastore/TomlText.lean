import StarfieldDatastore.Manifest
import Mathlib.Logic.Encodable.Basic
import Mathlib.Logic.Equiv.List

/-! A TOML crate that keeps its promises: one document has its usual text, every other one
a comment as long as its number. -/
namespace StarfieldDatastore

/-- A crate reads what it writes as what was written. -/
def TomlCrate.RoundTrips (T : TomlCrate) : Prop :=
  ∀ document s, T.toStringPretty document = some s → T.fromStr s = .ok document

/-- The sizes fit the integers of TOML. -/
def Document.Fits (d : Document) : Prop := ∀ e ∈ d.artifacts, ∀ n, e.bytes = some n → n < 2^63

/-- A crate writes every document that fits, and reads no other. -/
structure TomlCrate.Complete (T : TomlCrate) : Prop where
  writes : ∀ document, document.Fits → ∃ s, T.toStringPretty document = some s
  reads : ∀ s document, T.fromStr s = .ok document → document.Fits

def stringCode (s : String) : ℕ := Encodable.encode (s.toList.map Char.toNat)

theorem stringCode_inj {s s' : String} (h : stringCode s = stringCode s') : s = s' := by
  have hmap := Encodable.encode_injective h
  exact String.toList_inj.mp (List.map_injective_iff.mpr (fun _ _ hc => Char.toNat_inj.mp hc) hmap)

namespace TomlValue

mutual

def code : TomlValue → ℕ
  | .string s => Nat.pair 0 (stringCode s)
  | .integer n => Nat.pair 1 (Encodable.encode n.val)
  | .boolean b => Nat.pair 2 b.toNat
  | .other text => Nat.pair 3 (stringCode text)
  | .array values => Nat.pair 4 (codes values)
  | .table entries => Nat.pair 5 (fields entries)

def codes : List TomlValue → ℕ
  | [] => 0
  | value :: values => Nat.pair value.code (codes values)+1

def fields : List (String × TomlValue) → ℕ
  | [] => 0
  | (name,value) :: entries => Nat.pair (Nat.pair (stringCode name) value.code) (fields entries)+1

end

mutual

theorem code_inj {v v' : TomlValue} (h : v.code = v'.code) : v = v' := by
  match v, v' with
  | .string s, .string s' =>
    simp only [code,Nat.pair_eq_pair,true_and] at h
    rw [stringCode_inj h]
  | .integer n, .integer n' =>
    simp only [code,Nat.pair_eq_pair,true_and] at h
    rw [Subtype.ext (Encodable.encode_injective h)]
  | .boolean b, .boolean b' =>
    simp only [code,Nat.pair_eq_pair,true_and] at h
    cases b <;> cases b' <;> first | rfl | cases h
  | .other s, .other s' =>
    simp only [code,Nat.pair_eq_pair,true_and] at h
    rw [stringCode_inj h]
  | .array values, .array values' =>
    simp only [code,Nat.pair_eq_pair,true_and] at h
    rw [codes_inj h]
  | .table entries, .table entries' =>
    simp only [code,Nat.pair_eq_pair,true_and] at h
    rw [fields_inj h]
  | .string _, .integer _ | .string _, .boolean _ | .string _, .other _ | .string _, .array _
  | .string _, .table _ | .integer _, .string _ | .integer _, .boolean _ | .integer _, .other _
  | .integer _, .array _ | .integer _, .table _ | .boolean _, .string _ | .boolean _, .integer _
  | .boolean _, .other _ | .boolean _, .array _ | .boolean _, .table _ | .other _, .string _
  | .other _, .integer _ | .other _, .boolean _ | .other _, .array _ | .other _, .table _
  | .array _, .string _ | .array _, .integer _ | .array _, .boolean _ | .array _, .other _
  | .array _, .table _ | .table _, .string _ | .table _, .integer _ | .table _, .boolean _
  | .table _, .other _ | .table _, .array _ => simp [code,Nat.pair_eq_pair] at h

theorem codes_inj {l l' : List TomlValue} (h : codes l = codes l') : l = l' := by
  match l, l' with
  | [], [] => rfl
  | value :: values, value' :: values' =>
    simp only [codes,Nat.add_right_cancel_iff,Nat.pair_eq_pair] at h
    rw [code_inj h.1,codes_inj h.2]
  | [], _ :: _ | _ :: _, [] => simp [codes] at h

theorem fields_inj {l l' : List (String × TomlValue)} (h : fields l = fields l') : l = l' := by
  match l, l' with
  | [], [] => rfl
  | (name,value) :: entries, (name',value') :: entries' =>
    simp only [fields,Nat.add_right_cancel_iff,Nat.pair_eq_pair] at h
    rw [stringCode_inj h.1.1,code_inj h.1.2,fields_inj h.2]
  | [], _ :: _ | _ :: _, [] => simp [fields] at h

end

end TomlValue

def SourceEntry.code : SourceEntry → ℕ
  | .url raw => Nat.pair 0 (stringCode raw)
  | .detailed raw trust => Nat.pair 1 (Nat.pair (stringCode raw) trust.toNat)

theorem SourceEntry.code_inj {e e' : SourceEntry} (h : e.code = e'.code) : e = e' := by
  cases e <;> cases e' <;> simp only [code,Nat.pair_eq_pair,true_and] at h
  · rw [stringCode_inj h]
  · simp at h
  · simp at h
  · rename_i b _ b'
    rw [stringCode_inj h.1]
    cases b <;> cases b' <;> first | rfl | cases h.2

def Entry.code (e : Entry) : ℕ :=
  Encodable.encode [stringCode e.key,Encodable.encode (e.sources.map SourceEntry.code),
    Encodable.encode (e.sha256.map stringCode),Encodable.encode e.bytes,stringCode e.freshness,
    Encodable.encode (e.check.map TomlValue.code),stringCode e.description,stringCode e.license,
    Encodable.encode (e.citation.map stringCode)]

theorem map_inj {α : Type} {f : α → ℕ} (hf : ∀ a a', f a = f a' → a = a') {o o' : Option α}
    (h : Encodable.encode (o.map f) = Encodable.encode (o'.map f)) : o = o' :=
  Option.map_injective (fun a a' => hf a a') (Encodable.encode_injective h)

theorem Entry.code_inj {e e' : Entry} (h : e.code = e'.code) : e = e' := by
  obtain ⟨key,sources,sha256,bytes,freshness,check,description,license,citation⟩ := e
  obtain ⟨key',sources',sha256',bytes',freshness',check',description',license',citation'⟩ := e'
  have hlist := Encodable.encode_injective h
  simp only [List.cons.injEq,and_true] at hlist
  obtain ⟨hkey,hsources,hsha256,hbytes,hfreshness,hcheck,hdescription,hlicense,hcitation⟩ := hlist
  have hmap := List.map_injective_iff.mpr (fun _ _ => SourceEntry.code_inj)
    (Encodable.encode_injective hsources)
  rw [stringCode_inj hkey,hmap,map_inj (fun _ _ => stringCode_inj) hsha256,
    Encodable.encode_injective hbytes,stringCode_inj hfreshness,
    map_inj (fun _ _ => TomlValue.code_inj) hcheck,stringCode_inj hdescription,stringCode_inj hlicense,
    map_inj (fun _ _ => stringCode_inj) hcitation]

theorem Document.code_inj {d d' : Document}
    (h : Encodable.encode (d.artifacts.map Entry.code) = Encodable.encode (d'.artifacts.map Entry.code)) :
    d = d' := by
  obtain ⟨as⟩ := d
  obtain ⟨as'⟩ := d'
  have hmap := List.map_injective_iff.mpr (fun _ _ => Entry.code_inj) (Encodable.encode_injective h)
  exact congrArg Document.mk hmap

/-- A comment as long as the number of the document. -/
def Document.comment (d : Document) : String :=
  String.ofList (List.replicate (Encodable.encode (d.artifacts.map Entry.code)) '#')

theorem Document.comment_inj {d d' : Document} (h : d.comment = d'.comment) : d = d' := by
  have hlength := congrArg List.length (String.ofList_injective h)
  rw [List.length_replicate,List.length_replicate] at hlength
  exact code_inj hlength

open Classical in
/-- A crate that writes documents in this way. -/
noncomputable def TomlCrate.writing (shown : Document → String) : TomlCrate where
  toStringPretty d := if d.Fits then some (shown d) else none
  fromStr s := if h : ∃ d : Document, d.Fits ∧ s = shown d then .ok h.choose else .error none

theorem TomlCrate.writing_spec {shown : Document → String} (hinj : Function.Injective shown) :
    (writing shown).RoundTrips ∧ (writing shown).Complete ∧
      ∀ d : Document, d.Fits → (writing shown).toStringPretty d = some (shown d) ∧
        (writing shown).fromStr (shown d) = .ok d := by
  have hround : (writing shown).RoundTrips := by
    intro d s h
    simp only [writing] at h ⊢
    split at h
    · rename_i hd
      have hex : ∃ d : Document, d.Fits ∧ s = shown d := ⟨d,hd,(Option.some.inj h).symm⟩
      rw [dif_pos hex,← hinj (hex.choose_spec.2.symm.trans (Option.some.inj h).symm)]
    · cases h
  have hwrite : ∀ d : Document, d.Fits → (writing shown).toStringPretty d = some (shown d) :=
    fun d hd => if_pos hd
  refine ⟨hround,⟨fun d hd => ⟨_,hwrite d hd⟩,fun s d h => ?_⟩,fun d hd => ⟨hwrite d hd,hround _ _ (hwrite d hd)⟩⟩
  simp only [writing] at h
  split at h
  · rename_i hex
    cases h
    exact hex.choose_spec.1
  · cases h

open Classical in
/-- The text of one more document. -/
noncomputable def Document.entitle (document : Document) (text : String) (shown : Document → String) :
    Document → String := fun d => if d = document then text else shown d

theorem Document.entitle_self {document : Document} {text : String} {shown : Document → String} :
    document.entitle text shown document = text := if_pos rfl

theorem Document.entitle_ne {document d : Document} {text : String} {shown : Document → String} (h : d ≠ document) :
    document.entitle text shown d = shown d := if_neg h

/-- A new text tells its document apart. -/
theorem Document.entitle_injective {document : Document} {text : String} {shown : Document → String}
    (hinj : Function.Injective shown) (hnew : ∀ d, shown d ≠ text) :
    Function.Injective (document.entitle text shown) := by
  intro d d' h
  by_cases hd : d = document
  · by_cases hd' : d' = document
    · rw [hd,hd']
    · rw [hd,entitle_self,entitle_ne hd'] at h
      exact absurd h.symm (hnew d')
  · rw [entitle_ne hd] at h
    by_cases hd' : d' = document
    · rw [hd',entitle_self] at h
      exact absurd h (hnew d)
    · rw [entitle_ne hd'] at h
      exact hinj h

theorem Document.comment_ne {d : Document} {text : String} (htext : ∃ c ∈ text.toList, c ≠ '#') :
    d.comment ≠ text := by
  rintro rfl
  obtain ⟨c,hc,hne⟩ := htext
  simp only [Document.comment,String.toList_ofList] at hc
  exact hne (List.eq_of_mem_replicate hc)

theorem Document.comment_injective : Function.Injective Document.comment := fun _ _ => Document.comment_inj

/-- A crate that knows the text of one document. -/
noncomputable def TomlCrate.knowing (document : Document) (text : String) : TomlCrate :=
  .writing (document.entitle text Document.comment)

/-- A text that is no comment tells its document apart. -/
theorem TomlCrate.knowing_spec {document : Document} {text : String} (htext : ∃ c ∈ text.toList, c ≠ '#')
    (hfits : document.Fits) :
    (knowing document text).RoundTrips ∧ (knowing document text).Complete ∧
      (knowing document text).toStringPretty document = some text ∧
      (knowing document text).fromStr text = .ok document := by
  have hinj : Function.Injective (document.entitle text Document.comment) :=
    Document.entitle_injective Document.comment_injective fun _ => Document.comment_ne htext
  obtain ⟨hT,hC,hknown⟩ := writing_spec hinj
  have hdocument := hknown document hfits
  rw [Document.entitle_self] at hdocument
  exact ⟨hT,hC,hdocument⟩

end StarfieldDatastore
