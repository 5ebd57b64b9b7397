import StarfieldDatastore.Manifest
import StarfieldDatastore.Accepts

/-! Manifests through TOML and back. Reading undoes writing as long as no check is nested
deeper than the reader allows; the pin comes back in one normal place. -/
namespace StarfieldDatastore

namespace ContentCheck

mutual

/-- How many `all` lie above the deepest check. -/
def depth : ContentCheck → ℕ
  | .all checks => depths checks
  | _ => 0

def depths : List ContentCheck → ℕ
  | [] => 0
  | check :: checks => max (check.depth+1) (depths checks)

end

/-- The check as a reader of the written manifest has it. -/
def normal (c : ContentCheck) : ContentCheck :=
  match (splitPin c).1 with
  | some digest => .all [.sha256 digest,(splitPin c).2]
  | Option.none => (splitPin c).2

end ContentCheck

section codec

theorem I64.ofNat_eq {n : ℕ} {i : I64} (h : I64.ofNat n = some i) : i.val = n := by
  unfold I64.ofNat at h
  split at h
  · cases h
    rfl
  · cases h

theorem asBytes_fromUtf8 {p : Bytes} {s : String} (h : fromUtf8 p = some s) : asBytes s = p := by
  unfold fromUtf8 String.fromUTF8? at h
  split at h
  · cases h
    rfl
  · cases h

theorem asByte_toNat (b : UInt8) (h : -2^63 ≤ (b.toNat : ℤ) ∧ (b.toNat : ℤ) < 2^63) :
    TomlValue.asByte (.integer ⟨b.toNat,h⟩) = .ok b := by
  have hb := b.toNat_lt
  simp only [TomlValue.asByte]
  rw [if_pos ⟨by omega,by omega⟩]
  simp

theorem mapM_ok {α β ε : Type} {f : α → β} {g : β → Except ε α} (h : ∀ a, g (f a) = .ok a)
    (l : List α) : (l.map f).mapM g = .ok l := by
  induction l with
  | nil => rfl
  | cons a l ih =>
    rw [List.map_cons,List.mapM_cons,h,ih]
    rfl

theorem asPrefix_encodePrefix (p : Bytes) : (encodePrefix p).asPrefix = .ok p := by
  unfold encodePrefix
  cases hs : fromUtf8 p with
  | some s =>
    simp only [TomlValue.asPrefix]
    rw [asBytes_fromUtf8 hs]
  | none =>
    simp only [TomlValue.asPrefix]
    exact mapM_ok (fun b => asByte_toNat b _) p

/-- A signature check that is written is read back. -/
theorem parseMagic_encode {prefixes : List Bytes} (trim : Bool)
    (h : (prefixes.isEmpty || prefixes.any List.isEmpty) = false) :
    parseMagic [("magic",.array (prefixes.map encodePrefix)),("trim_leading_whitespace",.boolean trim)]
      (.array (prefixes.map encodePrefix)) = .ok (.magic prefixes trim) := by
  have hprefixes := mapM_ok asPrefix_encodePrefix prefixes
  unfold parseMagic
  rw [if_neg (by simp)]
  simp only [hprefixes]
  show (if _ then _ else _) = _
  rw [if_neg (by rw [h]; decide)]
  rfl

theorem parseCheck_variant {depth : ℕ} (hd : depth ≤ maxCheckDepth) {name : String} (value : TomlValue)
    (hmagic : name ≠ "magic") (hall : name ≠ "all") :
    parseCheck depth (.table [(name,value)]) = parseVariant name value := by
  have hlookup : List.lookup "magic" [(name,value)] = none := by
    simp [List.lookup_cons,beq_false_of_ne hmagic.symm]
  rw [parseCheck,if_neg (by omega)]
  · simp only [hlookup]
  · exact fun _ h => absurd h hall

theorem parseCheck_all {depth : ℕ} (hd : depth ≤ maxCheckDepth) (values : List TomlValue) :
    parseCheck depth (.table [("all",.array values)]) = (parseChecks (depth+1) values).map .all := by
  rw [parseCheck,if_neg (by omega)]
  cases parseChecks (depth+1) values <;> rfl

theorem parseCheck_magic {depth : ℕ} (hd : depth ≤ maxCheckDepth) (magic trim : TomlValue) :
    parseCheck depth (.table [("magic",magic),("trim_leading_whitespace",trim)]) =
      parseMagic [("magic",magic),("trim_leading_whitespace",trim)] magic := by
  rw [parseCheck,if_neg (by omega)]
  · rfl
  · exact fun _ h => by simp at h
  · exact fun _ _ h => by simp at h

mutual

/-- What is written is read back up to the depth that the reader allows. -/
theorem parseCheck_encode (c : ContentCheck) {value : TomlValue} (depth : ℕ)
    (h : encodeCheck c = .ok value) (hd : depth+c.depth ≤ maxCheckDepth) :
    parseCheck depth value = .ok c := by
  have hle : depth ≤ maxCheckDepth := by omega
  match c with
  | .none =>
    cases h
    exact parseCheck_variant hle _ (by decide) (by decide)
  | .notHtml =>
    cases h
    exact parseCheck_variant hle _ (by decide) (by decide)
  | .minBytes n =>
    simp only [encodeCheck] at h
    split at h
    · rename_i i hi
      cases h
      have hval := I64.ofNat_eq hi
      rw [parseCheck_variant hle _ (by decide) (by decide)]
      simp only [parseVariant]
      rw [if_pos (by omega),hval]
      rfl
    · cases h
  | .sha256 digest =>
    obtain ⟨u,hvalid,hvalue⟩ := bind_eq_ok.mp h
    cases hvalue
    rw [parseCheck_variant hle _ (by decide) (by decide)]
    simp only [parseVariant,hvalid]
    rfl
  | .custom f => cases h
  | .magic prefixes trim =>
    simp only [encodeCheck] at h
    split at h
    · cases h
    · rename_i hne
      cases h
      rw [parseCheck_magic hle]
      exact parseMagic_encode trim (Bool.not_eq_true _ ▸ hne)
  | .all checks =>
    obtain ⟨values,hvalues,hvalue⟩ := bind_eq_ok.mp h
    cases hvalue
    simp only [ContentCheck.depth] at hd
    rw [parseCheck_all hle,parseChecks_encode checks (depth+1) hvalues (by omega)]
    rfl

theorem parseChecks_encode (checks : List ContentCheck) {values : List TomlValue} (depth : ℕ)
    (h : encodeChecks checks = .ok values) (hd : depth+ContentCheck.depths checks ≤ maxCheckDepth+1) :
    parseChecks depth values = .ok checks := by
  match checks with
  | [] =>
    cases h
    rfl
  | check :: checks =>
    obtain ⟨value,hvalue,h⟩ := bind_eq_ok.mp h
    obtain ⟨rest,hrest,h⟩ := bind_eq_ok.mp h
    cases h
    simp only [ContentCheck.depths] at hd
    rw [parseChecks,parseCheck_encode check depth hvalue (by omega),
      parseChecks_encode checks depth hrest (by omega)]
    rfl

end

mutual

/-- What is nested deeper than that is refused. -/
theorem parseCheck_deep (c : ContentCheck) {value : TomlValue} (depth : ℕ)
    (h : encodeCheck c = .ok value) (hd : maxCheckDepth < depth+c.depth) :
    ∃ e, parseCheck depth value = .error e := by
  by_cases hle : depth ≤ maxCheckDepth
  · match c with
    | .all checks =>
      obtain ⟨values,hvalues,hvalue⟩ := bind_eq_ok.mp h
      cases hvalue
      simp only [ContentCheck.depth] at hd
      obtain ⟨e,he⟩ := parseChecks_deep checks (depth+1) hvalues (by omega) (by omega)
      rw [parseCheck_all hle,he]
      exact ⟨e,rfl⟩
    | .none | .notHtml | .minBytes n | .sha256 digest | .custom f | .magic prefixes trim =>
      simp only [ContentCheck.depth] at hd
      omega
  · unfold parseCheck
    rw [if_pos (by omega)]
    exact ⟨_,rfl⟩

theorem parseChecks_deep (checks : List ContentCheck) {values : List TomlValue} (depth : ℕ)
    (h : encodeChecks checks = .ok values) (hle : depth ≤ maxCheckDepth+1)
    (hd : maxCheckDepth+1 < depth+ContentCheck.depths checks) :
    ∃ e, parseChecks depth values = .error e := by
  match checks with
  | [] =>
    simp only [ContentCheck.depths] at hd
    omega
  | check :: checks =>
    obtain ⟨value,hvalue,h⟩ := bind_eq_ok.mp h
    obtain ⟨rest,hrest,h⟩ := bind_eq_ok.mp h
    cases h
    simp only [ContentCheck.depths] at hd
    by_cases hcheck : depth+check.depth ≤ maxCheckDepth
    · obtain ⟨e,he⟩ := parseChecks_deep checks depth hrest hle (by omega)
      rw [parseChecks,parseCheck_encode check depth hvalue hcheck,he]
      exact ⟨e,rfl⟩
    · obtain ⟨e,he⟩ := parseCheck_deep check depth hvalue (by omega)
      rw [parseChecks,he]
      exact ⟨e,rfl⟩

end

theorem parseMagic_ok {entries : List (String × TomlValue)} {magic : TomlValue} {c : ContentCheck}
    (h : parseMagic entries magic = .ok c) : c.depth = 0 ∧ ∃ value, encodeCheck c = .ok value := by
  unfold parseMagic at h
  split at h
  · cases h
  · cases magic with
    | array values =>
      obtain ⟨prefixes,-,h⟩ := bind_eq_ok.mp h
      split at h
      · cases h
      · rename_i hne
        have hvalue : ∀ trim, ∃ value, encodeCheck (.magic prefixes trim) = .ok value := fun trim => by
          rw [encodeCheck,if_neg hne]
          exact ⟨_,rfl⟩
        split at h
        · cases h
          exact ⟨rfl,hvalue _⟩
        · cases h
          exact ⟨rfl,hvalue _⟩
        · cases h
    | _ => cases h

theorem parseVariant_ok {name : String} {value : TomlValue} {c : ContentCheck}
    (h : parseVariant name value = .ok c) : c.depth = 0 ∧ ∃ value, encodeCheck c = .ok value := by
  unfold parseVariant at h
  split at h
  · cases h
    exact ⟨rfl,_,rfl⟩
  · cases h
    exact ⟨rfl,_,rfl⟩
  · obtain ⟨u,hvalid,h⟩ := bind_eq_ok.mp h
    cases h
    refine ⟨rfl,?_⟩
    rw [encodeCheck,hvalid]
    exact ⟨_,rfl⟩
  · cases h
  · rename_i n
    split at h
    · cases h
      have hn := n.property
      refine ⟨rfl,?_⟩
      rw [encodeCheck,I64.ofNat,dif_pos (by omega)]
      exact ⟨_,rfl⟩
    · cases h
  · cases h
  · cases h
  · cases h

/-- What is read can be written, and is nested no deeper than the reader allows. -/
theorem parse_ok : (∀ (depth : ℕ) (value : TomlValue), ∀ c, parseCheck depth value = .ok c →
      depth+c.depth ≤ maxCheckDepth ∧ ∃ value', encodeCheck c = .ok value') ∧
    ∀ (depth : ℕ) (values : List TomlValue), ∀ checks, parseChecks depth values = .ok checks →
      depth ≤ maxCheckDepth+1 → depth+ContentCheck.depths checks ≤ maxCheckDepth+1 ∧
        ∃ values', encodeChecks checks = .ok values' := by
  have leaf : ∀ {depth : ℕ} {c : ContentCheck}, ¬ depth > maxCheckDepth →
      (c.depth = 0 ∧ ∃ value, encodeCheck c = .ok value) →
      depth+c.depth ≤ maxCheckDepth ∧ ∃ value', encodeCheck c = .ok value' :=
    fun hd h => ⟨by omega,h.2⟩
  apply parseCheck.mutual_induct
  · intro value depth hd c h
    unfold parseCheck at h
    rw [if_pos hd] at h
    cases h
  · intro depth hd c h
    unfold parseCheck at h
    rw [if_neg hd] at h
    cases h
    exact leaf hd ⟨rfl,_,rfl⟩
  · intro depth hd hne c h
    unfold parseCheck at h
    rw [if_neg hd] at h
    cases h
    exact leaf hd ⟨rfl,_,rfl⟩
  · intro depth hd s hnone hhtml c h
    unfold parseCheck at h
    simp only [if_neg hd,hnone,hhtml,if_false] at h
    cases h
  · intro depth hd entries magic hmagic c h
    unfold parseCheck at h
    simp only [if_neg hd,hmagic] at h
    exact leaf hd (parseMagic_ok h)
  · intro depth hd values hmagic ih c h
    rw [parseCheck_all (by omega)] at h
    cases hchecks : parseChecks (depth+1) values with
    | error e =>
      rw [hchecks] at h
      cases h
    | ok checks =>
      rw [hchecks] at h
      cases h
      obtain ⟨hdepth,values',hvalues⟩ := ih checks hchecks (by omega)
      refine ⟨?_,.table [("all",.array values')],?_⟩
      · simp only [ContentCheck.depth]
        omega
      · rw [encodeCheck,hvalues]
        rfl
  · intro depth hd name value hall hmagic c h
    unfold parseCheck at h
    simp only [if_neg hd,hmagic] at h
    exact leaf hd (parseVariant_ok h)
  · intro depth hd entries hmagic hall hone c h
    unfold parseCheck at h
    simp only [if_neg hd,hmagic] at h
    cases h
  · intro value depth hd hstring htable c h
    unfold parseCheck at h
    rw [if_neg hd] at h
    cases value with
    | string s => exact (hstring s rfl).elim
    | table entries => exact (htable entries rfl).elim
    | _ => cases h
  · intro depth checks h hd
    cases h
    exact ⟨by simpa [ContentCheck.depths] using hd,_,rfl⟩
  · intro depth value values ihvalue ihvalues checks h hd
    obtain ⟨check,hcheck,h⟩ := bind_eq_ok.mp h
    obtain ⟨rest,hrest,h⟩ := bind_eq_ok.mp h
    cases h
    obtain ⟨hle,value',hvalue'⟩ := ihvalue check hcheck
    obtain ⟨hles,values',hvalues'⟩ := ihvalues rest hrest hd
    refine ⟨?_,value' :: values',?_⟩
    · simp only [ContentCheck.depths]
      omega
    · rw [encodeChecks,hvalue',hvalues']
      rfl

end codec

section pins
variable {H : Sha256} {body : Bytes} {c : ContentCheck}

/-- A pin is taken off in one of three places, or there is none in front. -/
theorem splitPin_cases (c : ContentCheck) :
    (∃ digest, c = .sha256 digest ∧ splitPin c = (some digest,.none)) ∨
    (∃ digest check, c = .all [.sha256 digest,check] ∧ splitPin c = (some digest,check)) ∨
    (∃ digest rest, c = .all (.sha256 digest :: rest) ∧ splitPin c = (some digest,.all rest)) ∨
    splitPin c = (none,c) := by
  unfold splitPin
  split
  · exact .inl ⟨_,rfl,rfl⟩
  · exact .inr (.inl ⟨_,_,rfl,rfl⟩)
  · exact .inr (.inr (.inl ⟨_,_,rfl,rfl⟩))
  · exact .inr (.inr (.inr rfl))

/-- The pin and the rest say what the whole check says. -/
theorem accepts_splitPin : c.Accepts H body ↔
    (∀ digest, (splitPin c).1 = some digest → H.hex body = digest) ∧ (splitPin c).2.Accepts H body := by
  rcases splitPin_cases c with ⟨digest,rfl,h⟩ | ⟨digest,check,rfl,h⟩ | ⟨digest,rest,rfl,h⟩ | h <;>
    simp [h,ContentCheck.Accepts,ContentCheck.AcceptsAll]

theorem pins_splitPin : c.pinnedSha256s = (splitPin c).1.toList++(splitPin c).2.pinnedSha256s := by
  rcases splitPin_cases c with ⟨digest,rfl,h⟩ | ⟨digest,check,rfl,h⟩ | ⟨digest,rest,rfl,h⟩ | h <;>
    simp [h,ContentCheck.pinnedSha256s,ContentCheck.pinnedSha256ss]

@[simp] theorem splitPin_pinned (digest : String) (check : ContentCheck) :
    splitPin (.all [.sha256 digest,check]) = (some digest,check) := rfl

theorem splitPin_none (h : (splitPin c).1 = none) : (splitPin c).2 = c := by
  rcases splitPin_cases c with ⟨digest,-,h'⟩ | ⟨digest,check,-,h'⟩ | ⟨digest,rest,-,h'⟩ | h'
  · simp [h'] at h
  · simp [h'] at h
  · simp [h'] at h
  · rw [h']

/-- The normal place of a pin is where it is taken off. -/
theorem splitPin_normal (c : ContentCheck) : splitPin c.normal = splitPin c := by
  unfold ContentCheck.normal
  cases hpin : (splitPin c).1 with
  | some digest => exact Prod.ext hpin.symm rfl
  | none =>
    simp only
    rw [splitPin_none hpin]

theorem accepts_normal : c.normal.Accepts H body ↔ c.Accepts H body := by
  rw [accepts_splitPin,splitPin_normal,← accepts_splitPin]

theorem pins_normal : c.normal.pinnedSha256s = c.pinnedSha256s := by
  rw [pins_splitPin,splitPin_normal,← pins_splitPin]

/-- The parts of a check that can be written can be written. -/
theorem encode_splitPin {value : TomlValue} (h : encodeCheck c = .ok value)
    (hd : c.depth ≤ maxCheckDepth) :
    (∀ digest, (splitPin c).1 = some digest → validateDigest digest = .ok ()) ∧
      (splitPin c).2.depth ≤ maxCheckDepth ∧ ∃ value', encodeCheck (splitPin c).2 = .ok value' := by
  have valid : ∀ {digest value}, encodeCheck (.sha256 digest) = .ok value →
      validateDigest digest = .ok () := fun h => by
    obtain ⟨u,hvalid,-⟩ := bind_eq_ok.mp h
    exact hvalid
  have first : ∀ {digest rest}, encodeCheck (.all (.sha256 digest :: rest)) = .ok value →
      validateDigest digest = .ok () ∧ ∃ values, encodeChecks rest = .ok values := fun h => by
    obtain ⟨values,hvalues,-⟩ := bind_eq_ok.mp h
    obtain ⟨value,hvalue,hrest⟩ := bind_eq_ok.mp hvalues
    obtain ⟨values',hvalues',-⟩ := bind_eq_ok.mp hrest
    exact ⟨valid hvalue,values',hvalues'⟩
  rcases splitPin_cases c with ⟨digest,rfl,h'⟩ | ⟨digest,check,rfl,h'⟩ | ⟨digest,rest,rfl,h'⟩ | h'
  · rw [h']
    refine ⟨fun d hd => ?_,Nat.zero_le _,_,rfl⟩
    cases hd
    exact valid h
  · obtain ⟨hvalid,values,hvalues⟩ := first h
    obtain ⟨value',hvalue',-⟩ := bind_eq_ok.mp hvalues
    rw [h']
    simp only [ContentCheck.depth,ContentCheck.depths] at hd
    refine ⟨fun d hd => ?_,by simp only; omega,value',hvalue'⟩
    cases hd
    exact hvalid
  · obtain ⟨hvalid,values,hvalues⟩ := first h
    rw [h']
    simp only [ContentCheck.depth,ContentCheck.depths] at hd
    refine ⟨fun d hd => ?_,by simp only [ContentCheck.depth]; omega,.table [("all",.array values)],?_⟩
    · cases hd
      exact hvalid
    · rw [encodeCheck,hvalues]
      rfl
  · rw [h']
    exact ⟨fun _ h => (nomatch h),hd,value,h⟩

end pins

/-- What a manifest promises about an artifact, and what survives in a copy of it. -/
structure Artifact.Same (a a' : Artifact) : Prop where
  key : a'.key = a.key
  sources : a'.sources = a.sources
  bytes : a'.expectedBytes = a.expectedBytes
  provenance : a'.provenance = a.provenance
  accepts : ∀ H body, a'.check.check H body = .ok () ↔ a.check.check H body = .ok ()
  pins : ∀ digest, digest ∈ a'.check.pinnedSha256s ↔ digest ∈ a.check.pinnedSha256s

/-- The same artifacts in the same order. -/
def Manifest.Same (m m' : Manifest) : Prop := List.Forall₂ Artifact.Same m.artifacts m'.artifacts

/-- The artifact as a reader of the written manifest has it. -/
def Artifact.normal (a : Artifact) : Artifact := { a with check := a.check.normal }

theorem Artifact.same_normal (a : Artifact) : a.Same a.normal where
  key := rfl
  sources := rfl
  bytes := rfl
  provenance := rfl
  accepts H body := by
    rw [ContentCheck.check_iff,ContentCheck.check_iff]
    exact accepts_normal
  pins digest := by
    rw [Artifact.normal,pins_normal]

namespace Manifest
variable {U : UrlCrate} {seen : List ArtifactKey} {a : Artifact} {entry : Entry}

theorem source_entry (source : Source) : source.entry.source = source := by
  obtain ⟨url,_ | _⟩ := source <;> rfl

theorem fromSource_toSource (key : ArtifactKey) {source : Source} {e : SourceEntry}
    (h : toSource U source = .ok e) : fromSource U key e = .ok source := by
  obtain ⟨u,hvalid,he⟩ := bind_eq_ok.mp h
  cases he
  rw [fromSource,source_entry,hvalid]
  rfl

theorem mapM_inverse {α β ε : Type} {f : α → Except ε β} {g : β → Except ε α}
    (h : ∀ a b, f a = .ok b → g b = .ok a) :
    ∀ {l : List α} {l' : List β}, l.mapM f = .ok l' → l'.mapM g = .ok l := by
  intro l
  induction l with
  | nil =>
    intro l' hl
    cases hl
    rfl
  | cons a l ih =>
    intro l' hl
    rw [List.mapM_cons] at hl
    obtain ⟨b,hb,hl⟩ := bind_eq_ok.mp hl
    obtain ⟨bs,hbs,hl⟩ := bind_eq_ok.mp hl
    cases hl
    rw [List.mapM_cons,h a b hb,ih hbs]
    rfl

/-- What is written for an artifact. -/
structure Writes (U : UrlCrate) (a : Artifact) (entry : Entry) : Prop where
  pin : validatePin (splitPin a.check).1 = .ok ()
  sources : a.sources.mapM (toSource U) = .ok entry.sources
  check : ∃ value, encodeCheck (splitPin a.check).2 = .ok value ∧ entry = ⟨a.key.text,entry.sources,
    (splitPin a.check).1,a.expectedBytes,"immutable",some value,a.provenance.description,
    a.provenance.license,a.provenance.citation⟩

theorem toEntry_iff : toEntry U seen a = .ok entry ↔ a.key ∉ seen ∧ Writes U a entry := by
  unfold toEntry
  by_cases hkey : a.key ∈ seen
  · rw [if_pos hkey]
    exact ⟨fun h => (nomatch h),fun h => absurd hkey h.1⟩
  · rw [if_neg hkey]
    constructor
    · intro h
      obtain ⟨u,hpin,h⟩ := bind_eq_ok.mp h
      obtain ⟨sources,hsources,h⟩ := bind_eq_ok.mp h
      obtain ⟨value,hvalue,h⟩ := bind_eq_ok.mp h
      cases h
      exact ⟨hkey,hpin,hsources,value,hvalue,rfl⟩
    · rintro ⟨-,hpin,hsources,value,hvalue,he⟩
      rw [he]
      simp only [hpin,hsources,hvalue]
      rfl

/-- An entry is read back, with the pin in its normal place, if its check is not too deep. -/
theorem fromEntry_of_writes (hkey : a.key ∉ seen) (h : Writes U a entry)
    (hd : (splitPin a.check).2.depth ≤ maxCheckDepth) : fromEntry U seen entry = .ok a.normal := by
  obtain ⟨hpin,hsources,value,hvalue,he⟩ := h
  have hread := parseCheck_encode _ 0 hvalue (by omega)
  have hback := mapM_inverse (fun _ _ => fromSource_toSource a.key) hsources
  have hcheck : fromCheck a.key entry = .ok a.check.normal := by
    rw [he]
    unfold fromCheck ContentCheck.normal
    cases hp : (splitPin a.check).1 with
    | none =>
      simp only [hread]
      rfl
    | some digest =>
      rw [hp] at hpin
      simp only [hread,show validateDigest digest = .ok () from hpin]
      rfl
  rw [he] at hcheck ⊢
  unfold fromEntry
  rw [ArtifactKey.new_text]
  show (if _ then _ else if _ then _ else _) = _
  rw [if_neg hkey,if_neg (by simp),hback,hcheck]
  rfl

/-- An entry whose check is too deep is refused. -/
theorem fromEntry_deep (h : Writes U a entry) (hd : maxCheckDepth < (splitPin a.check).2.depth) :
    ∃ e, fromEntry U seen entry = .error e := by
  obtain ⟨hpin,hsources,value,hvalue,he⟩ := h
  obtain ⟨e,hread⟩ := parseCheck_deep _ 0 hvalue (by omega)
  have hback := mapM_inverse (fun _ _ => fromSource_toSource a.key) hsources
  have hcheck : ∃ e, fromCheck a.key entry = .error e := by
    rw [he]
    unfold fromCheck
    simp only [hread]
    exact ⟨_,rfl⟩
  obtain ⟨e,hcheck⟩ := hcheck
  rw [he] at hcheck ⊢
  unfold fromEntry
  rw [ArtifactKey.new_text]
  by_cases hkey : a.key ∈ seen
  · exact ⟨_,if_pos hkey⟩
  · refine ⟨e,(if_neg hkey).trans ((if_neg (by simp)).trans ?_)⟩
    rw [hback,hcheck]
    rfl

/-- All entries are read back, or none of the checks is too deep. -/
theorem fromEntries_toEntries {as : List Artifact} : ∀ {seen : List ArtifactKey} {entries : List Entry},
    toEntries U seen as = .ok entries →
      ((∀ a ∈ as, (splitPin a.check).2.depth ≤ maxCheckDepth) →
        fromEntries U seen entries = .ok (as.map Artifact.normal)) ∧
      (∀ as', fromEntries U seen entries = .ok as' →
        ∀ a ∈ as, (splitPin a.check).2.depth ≤ maxCheckDepth) := by
  induction as with
  | nil =>
    intro seen entries h
    cases h
    exact ⟨fun _ => rfl,fun _ _ a ha => absurd ha List.not_mem_nil⟩
  | cons a as ih =>
    intro seen entries h
    obtain ⟨entry,hentry,h⟩ := bind_eq_ok.mp h
    obtain ⟨rest,hrest,h⟩ := bind_eq_ok.mp h
    cases h
    obtain ⟨hkey,hwrites⟩ := toEntry_iff.mp hentry
    obtain ⟨hall,hdeep⟩ := ih hrest
    refine ⟨fun hd => ?_,fun as' has' => ?_⟩
    · rw [fromEntries,fromEntry_of_writes hkey hwrites (hd a List.mem_cons_self)]
      show (do
        let artifacts ← fromEntries U (a.key :: seen) rest
        return a.normal :: artifacts) = _
      rw [hall fun b hb => hd b (List.mem_cons_of_mem _ hb)]
      rfl
    · by_cases hd : (splitPin a.check).2.depth ≤ maxCheckDepth
      · rw [fromEntries,fromEntry_of_writes hkey hwrites hd] at has'
        obtain ⟨artifact,hartifact,has'⟩ := bind_eq_ok.mp has'
        cases hartifact
        obtain ⟨artifacts,hartifacts,-⟩ := bind_eq_ok.mp has'
        exact List.forall_mem_cons.mpr ⟨hd,hdeep artifacts hartifacts⟩
      · have hrefused : ∃ e, fromEntry U seen entry = .error e := fromEntry_deep hwrites (by omega)
        obtain ⟨e,he⟩ := hrefused
        rw [fromEntries,he] at has'
        cases has'

/-- Writing sees a pin where it is taken off, so it does not see the difference. -/
theorem toEntries_normal (as : List Artifact) (seen : List ArtifactKey) :
    toEntries U seen (as.map Artifact.normal) = toEntries U seen as := by
  induction as generalizing seen with
  | nil => rfl
  | cons a as ih =>
    have hentry : toEntry U seen a.normal = toEntry U seen a := by
      unfold toEntry
      simp only [Artifact.normal,splitPin_normal]
    rw [List.map_cons,toEntries,toEntries,hentry]
    simp only [ih]
    rfl

end Manifest
end StarfieldDatastore
