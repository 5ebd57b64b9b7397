import StarfieldDatastore.RoundTrip
import StarfieldDatastore.TomlText

/-! The read, pin and write cycle on manifest files. A pinned manifest can always be written,
and what is written is read back as the same manifest. -/
namespace StarfieldDatastore
namespace Manifest
variable {T : TomlCrate} {U : UrlCrate} {m m' : Manifest} {s : String}

/-- The manifest as a reader of the written file has it. -/
def normal (m : Manifest) : Manifest := ⟨m.artifacts.map Artifact.normal⟩

theorem same_normal (m : Manifest) : m.Same m.normal := by
  unfold Same normal
  rw [List.forall₂_map_right_iff]
  exact List.forall₂_same.mpr fun a _ => a.same_normal

theorem toTomlString_iff : m.toTomlString T U = .ok s ↔
    ∃ entries, toEntries U [] m.artifacts = .ok entries ∧ T.toStringPretty ⟨entries⟩ = some s := by
  unfold toTomlString
  rw [bind_eq_ok]
  apply exists_congr
  intro entries
  cases T.toStringPretty ⟨entries⟩ with
  | none => simp [throw,throwThe,MonadExceptOf.throw]
  | some s' => simp [pure,Except.pure]

/-- What is written is read back with every pin in its normal place. -/
theorem fromTomlStr_written (hT : T.RoundTrips) (h : m.toTomlString T U = .ok s)
    (hd : ∀ a ∈ m.artifacts, (splitPin a.check).2.depth ≤ maxCheckDepth) :
    fromTomlStr T U s = .ok m.normal := by
  obtain ⟨entries,hentries,hs⟩ := toTomlString_iff.mp h
  unfold fromTomlStr
  rw [hT _ _ hs]
  simp only [(fromEntries_toEntries hentries).1 hd]
  rfl

theorem toTomlString_normal : m.normal.toTomlString T U = m.toTomlString T U := by
  unfold toTomlString normal
  rw [toEntries_normal]

/-- A written manifest is read back as the same manifest exactly when no check in it, the pin
in front taken off, is nested deeper than the reader allows. -/
theorem read_back_iff (hT : T.RoundTrips) (h : m.toTomlString T U = .ok s) :
    (∃ m', fromTomlStr T U s = .ok m' ∧ m.Same m') ↔
      ∀ a ∈ m.artifacts, (splitPin a.check).2.depth ≤ maxCheckDepth := by
  constructor
  · rintro ⟨m',hread,-⟩
    obtain ⟨entries,hentries,hs⟩ := toTomlString_iff.mp h
    unfold fromTomlStr at hread
    rw [hT _ _ hs] at hread
    obtain ⟨as,has,-⟩ := bind_eq_ok.mp hread
    exact (fromEntries_toEntries hentries).2 as has
  · intro hd
    exact ⟨m.normal,fromTomlStr_written hT h hd,m.same_normal⟩

/-- A check below `n` lists. -/
def nestedCheck : ℕ → ContentCheck
  | 0 => .none
  | n+1 => .all [nestedCheck n]

def nestedValue : ℕ → TomlValue
  | 0 => .table [("none",.boolean true)]
  | n+1 => .table [("all",.array [nestedValue n])]

theorem encodeCheck_nested (n : ℕ) : encodeCheck (nestedCheck n) = .ok (nestedValue n) := by
  induction n with
  | zero => rfl
  | succ n ih =>
    rw [nestedCheck,nestedValue,encodeCheck,encodeChecks,ih]
    rfl

theorem depth_nested (n : ℕ) : (nestedCheck n).depth = n := by
  induction n with
  | zero => rfl
  | succ n ih => simp [nestedCheck,ContentCheck.depth,ContentCheck.depths,ih]

theorem splitPin_nested (n : ℕ) : splitPin (nestedCheck n) = (none,nestedCheck n) := by
  cases n with
  | zero => rfl
  | succ n => cases n <;> rfl

theorem parseCheck_nested {n depth : ℕ} (hle : depth ≤ maxCheckDepth) (h : maxCheckDepth < depth+n) :
    parseCheck depth (nestedValue n) = .error (invalid "checks are nested too deeply") := by
  induction n generalizing depth with
  | zero => omega
  | succ n ih =>
    rw [nestedValue,parseCheck_all hle,parseChecks]
    by_cases hd : depth+1 ≤ maxCheckDepth
    · rw [ih hd (by omega)]
      rfl
    · unfold parseCheck
      rw [if_pos (by omega)]
      rfl

def nested (n : ℕ) : Manifest :=
  ⟨[⟨⟨"deep",by decide⟩,[],nestedCheck n,.immutable,⟨"","",none⟩,none⟩]⟩

def nestedDocument (n : ℕ) : Document :=
  ⟨[⟨"deep",[],none,none,"immutable",some (nestedValue n),"","",none⟩]⟩

def nestedText (n : ℕ) : String :=
  let headers := (List.range n).map fun i =>
    "\n[[artifact.check" ++ String.join (List.replicate (i+1) ".all") ++ "]]\n"
  "[[artifact]]\n" ++ ("key = \"deep\"\nsources = []\nfreshness = \"immutable\"\n" ++
    "description = \"\"\nlicense = \"\"\n" ++ String.join headers ++ "none = true\n")

/-- A crate that writes these manifests. -/
noncomputable def nestedToml (n : ℕ) : TomlCrate := .knowing (nestedDocument n) (nestedText n)

theorem toEntries_nested (n : ℕ) :
    toEntries U [] (nested n).artifacts = .ok (nestedDocument n).artifacts := by
  have hentry : toEntry U [] ⟨⟨"deep",by decide⟩,[],nestedCheck n,.immutable,⟨"","",none⟩,none⟩ =
      .ok ⟨"deep",[],none,none,"immutable",some (nestedValue n),"","",none⟩ := by
    rw [toEntry_iff]
    refine ⟨List.not_mem_nil,?_,rfl,nestedValue n,?_,?_⟩
    · rw [splitPin_nested]
      rfl
    · rw [splitPin_nested]
      exact encodeCheck_nested n
    · rw [splitPin_nested]
  rw [nested,toEntries,hentry]
  rfl

theorem nestedToml_spec (n : ℕ) : (nestedToml n).RoundTrips ∧
    (nestedToml n).toStringPretty (nestedDocument n) = some (nestedText n) := by
  have htext : ∃ c ∈ (nestedText n).toList, c ≠ '#' := by
    have hbracket : '[' ∈ "[[artifact]]\n".toList := by decide
    refine ⟨'[',?_,by decide⟩
    rw [nestedText,String.toList_append]
    exact List.mem_append_left _ hbracket
  have hfits : (nestedDocument n).Fits := by
    intro e he k hk
    rw [List.mem_singleton.mp he] at hk
    cases hk
  obtain ⟨hround,-,hwrite,-⟩ := TomlCrate.knowing_spec htext hfits
  exact ⟨hround,hwrite⟩

theorem toTomlString_nested (n : ℕ) :
    (nested n).toTomlString (nestedToml n) U = .ok (nestedText n) :=
  toTomlString_iff.mpr ⟨_,toEntries_nested n,(nestedToml_spec n).2⟩

theorem read_back_nested : ∃ m',
    fromTomlStr (nestedToml 32) (twoHosts "a.com" "b.org") (nestedText 32) = .ok m' ∧
      (nested 32).Same m' := by
  refine (read_back_iff (nestedToml_spec 32).1 (toTomlString_nested 32)).mpr fun a ha => ?_
  rw [List.mem_singleton.mp ha,splitPin_nested,depth_nested]
  decide

/-- One level more is still written, and then refused. -/
theorem read_back_refused : (nestedToml 33).RoundTrips ∧
    (nested 33).toTomlString (nestedToml 33) (twoHosts "a.com" "b.org") = .ok (nestedText 33) ∧
    fromTomlStr (nestedToml 33) (twoHosts "a.com" "b.org") (nestedText 33) =
      .error (.manifest "artifact deep: manifest error: checks are nested too deeply") := by
  refine ⟨(nestedToml_spec 33).1,toTomlString_nested 33,?_⟩
  have hcheck : parseCheck 0 (nestedValue 33) = .error (invalid "checks are nested too deeply") :=
    parseCheck_nested (by decide) (by decide)
  have hentry : fromEntry (twoHosts "a.com" "b.org") []
      ⟨"deep",[],none,none,"immutable",some (nestedValue 33),"","",none⟩ =
        .error (.manifest "artifact deep: manifest error: checks are nested too deeply") := by
    unfold fromEntry fromCheck
    simp only [hcheck]
    rfl
  unfold fromTomlStr
  rw [(nestedToml_spec 33).1 _ _ (nestedToml_spec 33).2]
  simp only [nestedDocument,fromEntries,hentry]
  rfl

/-- What it takes for an artifact to be written and read back. -/
structure Writable (U : UrlCrate) (a : Artifact) : Prop where
  pin : validatePin (splitPin a.check).1 = .ok ()
  sources : ∃ entries, a.sources.mapM (toSource U) = .ok entries
  check : ∃ value, encodeCheck (splitPin a.check).2 = .ok value
  depth : (splitPin a.check).2.depth ≤ maxCheckDepth
  bytes : ∀ n, a.expectedBytes = some n → n < 2^63

theorem mapError_eq_ok {ε ε' α : Type} {f : ε → ε'} {x : Except ε α} {a : α} :
    x.mapError f = .ok a ↔ x = .ok a := by
  cases x <;> simp [Except.mapError]

theorem toSource_fromSource {key : ArtifactKey} {e : SourceEntry} {source : Source}
    (h : fromSource U key e = .ok source) : ∃ e', toSource U source = .ok e' := by
  obtain ⟨u,hvalid,hsource⟩ := bind_eq_ok.mp h
  cases hsource
  refine ⟨e.source.entry,?_⟩
  rw [toSource,mapError_eq_ok.mp hvalid]
  rfl

theorem sources_writable {key : ArtifactKey} {es : List SourceEntry} : ∀ {sources : List Source},
    es.mapM (fromSource U key) = .ok sources → ∃ es', sources.mapM (toSource U) = .ok es' := by
  induction es with
  | nil =>
    intro sources h
    cases h
    exact ⟨[],rfl⟩
  | cons e es ih =>
    intro sources h
    rw [List.mapM_cons] at h
    obtain ⟨source,hsource,h⟩ := bind_eq_ok.mp h
    obtain ⟨rest,hrest,h⟩ := bind_eq_ok.mp h
    cases h
    obtain ⟨e',he'⟩ := toSource_fromSource hsource
    obtain ⟨es',hes'⟩ := ih hrest
    refine ⟨e' :: es',?_⟩
    rw [List.mapM_cons,he',hes']
    rfl

theorem fromCheck_cases {key : ArtifactKey} {entry : Entry} {c : ContentCheck}
    (h : fromCheck key entry = .ok c) :
    ∃ check, (check = .defaultBinary ∨ ∃ value, parseCheck 0 value = .ok check) ∧
      (c = check ∨ ∃ digest, validateDigest digest = .ok () ∧ c = .all [.sha256 digest,check]) := by
  unfold fromCheck at h
  cases hs : entry.sha256 with
  | none =>
    cases hv : entry.check with
    | none =>
      rw [hs,hv] at h
      cases h
      exact ⟨_,.inl rfl,.inl rfl⟩
    | some value =>
      rw [hs,hv] at h
      obtain ⟨check,hcheck,h⟩ := bind_eq_ok.mp h
      cases h
      exact ⟨_,.inr ⟨value,mapError_eq_ok.mp hcheck⟩,.inl rfl⟩
  | some digest =>
    cases hv : entry.check with
    | none =>
      rw [hs,hv] at h
      obtain ⟨check,hcheck,h⟩ := bind_eq_ok.mp h
      obtain ⟨u,hvalid,h⟩ := bind_eq_ok.mp h
      cases hcheck
      cases h
      exact ⟨_,.inl rfl,.inr ⟨digest,hvalid,rfl⟩⟩
    | some value =>
      rw [hs,hv] at h
      obtain ⟨check,hcheck,h⟩ := bind_eq_ok.mp h
      obtain ⟨u,hvalid,h⟩ := bind_eq_ok.mp h
      cases h
      exact ⟨_,.inr ⟨value,mapError_eq_ok.mp hcheck⟩,.inr ⟨digest,hvalid,rfl⟩⟩

/-- A check that is read can be written, whatever pin is in front of it. -/
theorem fromCheck_ok {key : ArtifactKey} {entry : Entry} {c : ContentCheck}
    (h : fromCheck key entry = .ok c) : validatePin (splitPin c).1 = .ok () ∧
      (splitPin c).2.depth ≤ maxCheckDepth ∧ ∃ value, encodeCheck (splitPin c).2 = .ok value := by
  obtain ⟨check,hcheck,hc⟩ := fromCheck_cases h
  have hread : check.depth ≤ maxCheckDepth ∧ ∃ value, encodeCheck check = .ok value := by
    rcases hcheck with rfl | ⟨value,hvalue⟩
    · exact ⟨by decide,_,rfl⟩
    · have hok := parse_ok.1 0 value check hvalue
      exact ⟨by omega,hok.2⟩
  rcases hc with rfl | ⟨digest,hvalid,rfl⟩
  · obtain ⟨hdepth,value,hvalue⟩ := hread
    obtain ⟨hpin,hd,hencode⟩ := encode_splitPin hvalue hdepth
    refine ⟨?_,hd,hencode⟩
    cases hp : (splitPin c).1 with
    | none => rfl
    | some digest => exact hpin digest hp
  · exact ⟨hvalid,hread⟩

/-- Every artifact of a manifest that was read can be written. -/
theorem fromEntry_ok {seen : List ArtifactKey} {entry : Entry} {a : Artifact}
    (hbytes : ∀ n, entry.bytes = some n → n < 2^63) (h : fromEntry U seen entry = .ok a) :
    a.key ∉ seen ∧ Writable U a := by
  obtain ⟨key,-,h⟩ := bind_eq_ok.mp h
  split at h
  · cases h
  · rename_i hkey
    split at h
    · cases h
    · obtain ⟨sources,hsources,h⟩ := bind_eq_ok.mp h
      obtain ⟨check,hcheck,h⟩ := bind_eq_ok.mp h
      cases h
      obtain ⟨hpin,hdepth,hencode⟩ := fromCheck_ok hcheck
      exact ⟨hkey,hpin,sources_writable hsources,hencode,hdepth,hbytes⟩

/-- A list of artifacts with distinct keys, none of them seen, that can all be written. -/
def AllWritable (U : UrlCrate) (seen : List ArtifactKey) (as : List Artifact) : Prop :=
  (as.map (·.key)).Nodup ∧ ∀ a ∈ as, a.key ∉ seen ∧ Writable U a

theorem fromEntries_ok {entries : List Entry} : ∀ {seen : List ArtifactKey} {as : List Artifact},
    (∀ e ∈ entries, ∀ n, e.bytes = some n → n < 2^63) → fromEntries U seen entries = .ok as →
      AllWritable U seen as := by
  induction entries with
  | nil =>
    intro seen as _ h
    cases h
    exact ⟨List.nodup_nil,fun a ha => absurd ha List.not_mem_nil⟩
  | cons entry entries ih =>
    intro seen as hbytes h
    obtain ⟨a,ha,h⟩ := bind_eq_ok.mp h
    obtain ⟨rest,hrest,h⟩ := bind_eq_ok.mp h
    cases h
    have hfirst := fromEntry_ok (hbytes entry List.mem_cons_self) ha
    obtain ⟨hnodup,hall⟩ := ih (fun e he => hbytes e (List.mem_cons_of_mem _ he)) hrest
    refine ⟨?_,List.forall_mem_cons.mpr ⟨hfirst,fun b hb => ?_⟩⟩
    · rw [List.map_cons,List.nodup_cons]
      refine ⟨fun hmem => ?_,hnodup⟩
      obtain ⟨b,hb,hkey⟩ := List.mem_map.mp hmem
      exact (hall b hb).1 (by rw [hkey]; exact List.mem_cons_self)
    · exact ⟨fun hseen => (hall b hb).1 (List.mem_cons_of_mem _ hseen),(hall b hb).2⟩

/-- Such a list is written, with sizes that fit. -/
theorem toEntries_ok {as : List Artifact} : ∀ {seen : List ArtifactKey}, AllWritable U seen as →
    ∃ entries, toEntries U seen as = .ok entries ∧ Document.Fits ⟨entries⟩ := by
  induction as with
  | nil => exact fun _ => ⟨[],rfl,fun e he => absurd he List.not_mem_nil⟩
  | cons a as ih =>
    rintro seen ⟨hnodup,hall⟩
    obtain ⟨hkey,ha⟩ := hall a List.mem_cons_self
    obtain ⟨hnot,hrest⟩ := List.nodup_cons.mp hnodup
    obtain ⟨sources,hsources⟩ := ha.sources
    obtain ⟨value,hvalue⟩ := ha.check
    have hothers : AllWritable U (a.key :: seen) as := by
      refine ⟨hrest,fun b hb => ⟨?_,(hall b (List.mem_cons_of_mem _ hb)).2⟩⟩
      rw [List.mem_cons,not_or]
      exact ⟨fun heq => hnot (List.mem_map.mpr ⟨b,hb,heq⟩),(hall b (List.mem_cons_of_mem _ hb)).1⟩
    obtain ⟨entries,hentries,hfits⟩ := ih hothers
    have hentry : toEntry U seen a = .ok ⟨a.key.text,sources,(splitPin a.check).1,a.expectedBytes,
        "immutable",some value,a.provenance.description,a.provenance.license,
        a.provenance.citation⟩ := toEntry_iff.mpr ⟨hkey,ha.pin,hsources,value,hvalue,rfl⟩
    refine ⟨⟨a.key.text,sources,(splitPin a.check).1,a.expectedBytes,"immutable",some value,
      a.provenance.description,a.provenance.license,a.provenance.citation⟩ :: entries,?_,
      List.forall_mem_cons.mpr ⟨ha.bytes,hfits⟩⟩
    rw [toEntries,hentry]
    simp only [bind,Except.bind,hentries]
    rfl

section pinning
variable {digest : String} {a a' : Artifact}

/-- Pinning changes nothing, or puts the pin in front of what is left of the check. -/
theorem pinArtifact_cases (h : pinArtifact digest a = .ok a') :
    ensureCompatiblePin digest a.check = .ok () ∧
      ((splitPin a.check).1 = some digest ∧ a' = a ∨
        a' = { a with check := .all [.sha256 digest,(splitPin a.check).2] }) := by
  obtain ⟨u,hcompatible,h⟩ := bind_eq_ok.mp h
  refine ⟨hcompatible,?_⟩
  simp only at h
  split at h
  · rename_i hpin
    cases h
    exact .inl ⟨hpin,rfl⟩
  · cases h
    exact .inr rfl

theorem pinArtifact_writable (hdigest : validateDigest digest = .ok ())
    (h : pinArtifact digest a = .ok a') (ha : Writable U a) : Writable U a' := by
  rcases (pinArtifact_cases h).2 with ⟨-,rfl⟩ | rfl
  · exact ha
  · exact ⟨hdigest,ha.sources,ha.check,ha.depth,ha.bytes⟩

theorem pinArtifact_key (h : pinArtifact digest a = .ok a') : a'.key = a.key := by
  rcases (pinArtifact_cases h).2 with ⟨-,rfl⟩ | rfl <;> rfl

/-- Pinning puts a pinned artifact in the place of the first one of that key. -/
theorem pinFirst_split {key : ArtifactKey} {as : List Artifact} : ∀ {as' : List Artifact},
    pinFirst key digest as = .ok as' → ∃ before a a' after, as = before++a :: after ∧
      as' = before++a' :: after ∧ a.key = key ∧ pinArtifact digest a = .ok a' := by
  induction as with
  | nil =>
    intro as' h
    cases h
  | cons a as ih =>
    intro as' h
    rw [pinFirst] at h
    split at h
    · rename_i hkey
      obtain ⟨a',ha',h⟩ := bind_eq_ok.mp h
      cases h
      exact ⟨[],a,a',as,rfl,rfl,hkey,ha'⟩
    · obtain ⟨rest,hrest,h⟩ := bind_eq_ok.mp h
      cases h
      obtain ⟨before,b,b',after,rfl,rfl,hkey,hb⟩ := ih hrest
      exact ⟨a :: before,b,b',after,rfl,rfl,hkey,hb⟩

theorem pinSha256_split {key : ArtifactKey} (h : m.pinSha256 key digest = .ok m') :
    validateDigest digest = .ok () ∧ ∃ before a a' after, m.artifacts = before++a :: after ∧
      m'.artifacts = before++a' :: after ∧ a.key = key ∧ pinArtifact digest a = .ok a' := by
  obtain ⟨u,hdigest,h⟩ := bind_eq_ok.mp h
  obtain ⟨as,has,h⟩ := bind_eq_ok.mp h
  cases h
  exact ⟨hdigest,pinFirst_split has⟩

theorem pinSha256_writable {key : ArtifactKey} (h : m.pinSha256 key digest = .ok m')
    (hm : AllWritable U [] m.artifacts) : AllWritable U [] m'.artifacts := by
  obtain ⟨hdigest,before,a,a',after,has,has',-,ha⟩ := pinSha256_split h
  obtain ⟨hnodup,hall⟩ := hm
  rw [has] at hnodup hall
  rw [has']
  refine ⟨?_,fun b hb => ⟨List.not_mem_nil,?_⟩⟩
  · simpa only [List.map_append,List.map_cons,pinArtifact_key ha] using hnodup
  · rcases List.mem_append.mp hb with hb | hb
    · exact (hall b (List.mem_append_left _ hb)).2
    · rcases List.mem_cons.mp hb with rfl | hb
      · exact pinArtifact_writable hdigest ha (hall a (by simp)).2
      · exact (hall b (by simp [hb])).2

/-- A sequence of pins, each of which must succeed. -/
def pinAll (m : Manifest) : List (ArtifactKey × String) → Except DatastoreError Manifest
  | [] => .ok m
  | (key,digest) :: pins => do
    let m ← m.pinSha256 key digest
    m.pinAll pins

theorem pinAll_writable {pins : List (ArtifactKey × String)} : ∀ {m : Manifest},
    m.pinAll pins = .ok m' → AllWritable U [] m.artifacts → AllWritable U [] m'.artifacts := by
  induction pins with
  | nil =>
    intro m h hm
    cases h
    exact hm
  | cons pin pins ih =>
    intro m h hm
    obtain ⟨m₁,hm₁,h⟩ := bind_eq_ok.mp h
    exact ih h (pinSha256_writable hm₁ hm)

end pinning

theorem fromTomlStr_writable (hC : T.Complete) (h : fromTomlStr T U s = .ok m) :
    AllWritable U [] m.artifacts := by
  unfold fromTomlStr at h
  split at h
  · cases h
  · rename_i document hdocument
    obtain ⟨as,has,h⟩ := bind_eq_ok.mp h
    cases h
    exact fromEntries_ok (hC.reads s document hdocument) has

/-- A writable manifest is written, read back as the same manifest, and written again as the
same text. -/
theorem written (hT : T.RoundTrips) (hC : T.Complete) (hm : AllWritable U [] m.artifacts) :
    ∃ s, m.toTomlString T U = .ok s ∧ fromTomlStr T U s = .ok m.normal ∧
      m.normal.toTomlString T U = .ok s := by
  obtain ⟨entries,hentries,hfits⟩ := toEntries_ok hm
  obtain ⟨s,hs⟩ := hC.writes _ hfits
  have hwrite := toTomlString_iff.mpr ⟨entries,hentries,hs⟩
  have hread := fromTomlStr_written hT hwrite fun a ha => (hm.2 a ha).2.depth
  exact ⟨s,hwrite,hread,toTomlString_normal.trans hwrite⟩

/-- Any manifest that was read, and pinned again and again, is written as a text that is read
back as the same manifest and written as the same text. -/
theorem write_back {pins : List (ArtifactKey × String)} (hT : T.RoundTrips) (hC : T.Complete)
    (hread : fromTomlStr T U s = .ok m) (hpins : m.pinAll pins = .ok m') :
    ∃ s' m'', m'.toTomlString T U = .ok s' ∧ fromTomlStr T U s' = .ok m'' ∧ m'.Same m'' ∧
      m''.toTomlString T U = .ok s' := by
  obtain ⟨s',hwrite,hback,hagain⟩ := written hT hC (pinAll_writable hpins (fromTomlStr_writable hC hread))
  exact ⟨s',m'.normal,hwrite,hback,m'.same_normal,hagain⟩

/-- A manifest of one artifact that is not pinned, and the same with its pin. -/
def unpinned (license : String) : Manifest :=
  ⟨[⟨Artifact.sample.key,[],.none,.immutable,⟨"",license,none⟩,some 3⟩]⟩

def pinned (license : String) : Manifest :=
  ⟨[⟨Artifact.sample.key,[],.all [.sha256 (Sha256.sample.hex [0x61,0x62,0x63]),.none],.immutable,
    ⟨"",license,none⟩,some 3⟩]⟩

/-- The document of either, with the pin if it has one. -/
def sampleDocument (sha256 : Option String) (license : String) : Document :=
  ⟨[⟨"abc",[],sha256,some 3,"immutable",some (.table [("none",.boolean true)]),"",license,none⟩]⟩

def pinLine : Option String → String
  | none => ""
  | some digest => "sha256 = \"" ++ digest ++ "\"\n"

def sampleText (sha256 : Option String) (license : String) : String :=
  "[[artifact]]\n" ++ ("key = \"abc\"\nsources = []\n" ++ (pinLine sha256 ++ ("bytes = 3\nfreshness = \"immutable\"\n" ++
    ("description = \"\"\nlicense = \"" ++ license ++ "\"\n\n[artifact.check]\nnone = true\n"))))

/-- A crate that knows both texts. -/
noncomputable def sampleToml (license : String) : TomlCrate :=
  .writing <| (sampleDocument (some (Sha256.sample.hex [0x61,0x62,0x63])) license).entitle
    (sampleText (some (Sha256.sample.hex [0x61,0x62,0x63])) license)
    ((sampleDocument none license).entitle (sampleText none license) Document.comment)

theorem sampleText_shown (sha256 : Option String) (license : String) :
    ∃ c ∈ (sampleText sha256 license).toList, c ≠ '#' := by
  have hbracket : '[' ∈ "[[artifact]]\n".toList := by decide
  refine ⟨'[',?_,by decide⟩
  rw [sampleText,String.toList_append]
  exact List.mem_append_left _ hbracket

theorem sampleText_ne (digest license : String) : sampleText none license ≠ sampleText (some digest) license := by
  intro h
  have hlength := congrArg String.length h
  simp only [sampleText,pinLine,String.length_append] at hlength
  have hline : "sha256 = \"".length = 10 := rfl
  have hnone : "".length = 0 := rfl
  omega

theorem sampleDocument_fits (sha256 : Option String) (license : String) : (sampleDocument sha256 license).Fits := by
  intro e he n hn
  rw [List.mem_singleton.mp he] at hn
  cases hn
  decide

theorem sampleToml_spec (license : String) : (sampleToml license).RoundTrips ∧ (sampleToml license).Complete ∧
    fromTomlStr (sampleToml license) (twoHosts "a.com" "b.org") (sampleText none license) = .ok (unpinned license) ∧
    (pinned license).toTomlString (sampleToml license) (twoHosts "a.com" "b.org") =
      .ok (sampleText (some (Sha256.sample.hex [0x61,0x62,0x63])) license) := by
  have hdocuments : sampleDocument none license ≠
      sampleDocument (some (Sha256.sample.hex [0x61,0x62,0x63])) license := by
    intro h
    cases h
  have hunpinned : Function.Injective ((sampleDocument none license).entitle (sampleText none license) Document.comment) :=
    Document.entitle_injective Document.comment_injective fun _ => Document.comment_ne (sampleText_shown _ _)
  have hnew : ∀ d, (sampleDocument none license).entitle (sampleText none license) Document.comment d ≠
      sampleText (some (Sha256.sample.hex [0x61,0x62,0x63])) license := by
    intro d
    by_cases hd : d = sampleDocument none license
    · rw [hd,Document.entitle_self]
      exact sampleText_ne _ _
    · rw [Document.entitle_ne hd]
      exact Document.comment_ne (sampleText_shown _ _)
  obtain ⟨hT,hC,hknown⟩ := TomlCrate.writing_spec (Document.entitle_injective hunpinned hnew)
  have hread := (hknown _ (sampleDocument_fits none license)).2
  rw [Document.entitle_ne hdocuments,Document.entitle_self] at hread
  have hwrite := (hknown _ (sampleDocument_fits (some (Sha256.sample.hex [0x61,0x62,0x63])) license)).1
  rw [Document.entitle_self] at hwrite
  refine ⟨hT,hC,?_,toTomlString_iff.mpr ⟨(sampleDocument _ license).artifacts,rfl,hwrite⟩⟩
  have hkey : ArtifactKey.new "abc" = .ok Artifact.sample.key := ArtifactKey.new_text Artifact.sample.key
  unfold fromTomlStr sampleToml
  rw [hread]
  simp only [sampleDocument,fromEntries,fromEntry,hkey]
  rfl

theorem pinSha256_unpinned (license : String) : (unpinned license).pinSha256 Artifact.sample.key
    (Sha256.sample.hex [0x61,0x62,0x63]) = .ok (pinned license) := by
  have hdigest : validateDigest (Sha256.sample.hex [0x61,0x62,0x63]) = .ok () := by decide
  unfold pinSha256
  rw [hdigest]
  rfl

/-- A manifest is read and pinned, which changes it; it is written with its pin and read back. -/
theorem write_back_pinned :
    fromTomlStr (sampleToml "") (twoHosts "a.com" "b.org") (sampleText none "") = .ok (unpinned "") ∧
    (unpinned "").pinAll [(Artifact.sample.key,Sha256.sample.hex [0x61,0x62,0x63])] = .ok (pinned "") ∧
    pinned "" ≠ unpinned "" ∧
    ∃ s' m'', (pinned "").toTomlString (sampleToml "") (twoHosts "a.com" "b.org") = .ok s' ∧
      fromTomlStr (sampleToml "") (twoHosts "a.com" "b.org") s' = .ok m'' ∧ (pinned "").Same m'' ∧
      m''.toTomlString (sampleToml "") (twoHosts "a.com" "b.org") = .ok s' := by
  obtain ⟨hT,hC,hread,-⟩ := sampleToml_spec ""
  have hpins : (unpinned "").pinAll [(Artifact.sample.key,Sha256.sample.hex [0x61,0x62,0x63])] = .ok (pinned "") := by
    rw [pinAll,pinSha256_unpinned]
    rfl
  have hchanged : pinned "" ≠ unpinned "" := by
    intro h
    cases h
  exact ⟨hread,hpins,hchanged,write_back hT hC hread hpins⟩

end Manifest
end StarfieldDatastore
