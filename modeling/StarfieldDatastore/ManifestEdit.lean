import StarfieldDatastore.RoundTrip
import StarfieldDatastore.KeyedList

/-! How a manifest is changed: a pin on one artifact, and a second manifest laid over it. -/
namespace StarfieldDatastore

mutual

theorem ensureCompatiblePin_iff {digest : String} (c : ContentCheck) :
    ensureCompatiblePin digest c = .ok () ↔ ∀ d ∈ c.pinnedSha256s, d = digest := by
  match c with
  | .sha256 existing =>
    by_cases h : existing = digest <;> simp [ensureCompatiblePin,ContentCheck.pinnedSha256s,h]
  | .all checks =>
    rw [ensureCompatiblePin,ContentCheck.pinnedSha256s]
    exact ensureCompatiblePins_iff checks
  | .none => simp [ensureCompatiblePin,ContentCheck.pinnedSha256s]
  | .notHtml => simp [ensureCompatiblePin,ContentCheck.pinnedSha256s]
  | .minBytes min => simp [ensureCompatiblePin,ContentCheck.pinnedSha256s]
  | .custom f => simp [ensureCompatiblePin,ContentCheck.pinnedSha256s]
  | .magic prefixes trim => simp [ensureCompatiblePin,ContentCheck.pinnedSha256s]

theorem ensureCompatiblePins_iff {digest : String} (checks : List ContentCheck) :
    ensureCompatiblePins digest checks = .ok () ↔
      ∀ d ∈ ContentCheck.pinnedSha256ss checks, d = digest := by
  match checks with
  | [] => simp [ensureCompatiblePins,ContentCheck.pinnedSha256ss]
  | check :: checks =>
    rw [ensureCompatiblePins,ContentCheck.bind_ok_iff,ensureCompatiblePin_iff check,
      ensureCompatiblePins_iff checks,ContentCheck.pinnedSha256ss]
    simp only [List.mem_append,or_imp,forall_and]

end

/-- A check with a pin in front, where it does not have that one already. -/
def ContentCheck.pinned (digest : String) (c : ContentCheck) : ContentCheck :=
  if (splitPin c).1 = some digest then c else .all [.sha256 digest,(splitPin c).2]

section pinned
variable {H : Sha256} {body : Bytes} {digest : String} {c : ContentCheck}

theorem splitPin_pinned_fst : (splitPin (c.pinned digest)).1 = some digest := by
  unfold ContentCheck.pinned
  split
  next h => exact h
  next => rfl

/-- Without another pin in the tree, nothing but the digest is added to the check. -/
theorem accepts_pinned (h : ∀ d ∈ c.pinnedSha256s, d = digest) :
    (c.pinned digest).Accepts H body ↔ c.Accepts H body ∧ H.hex body = digest := by
  rw [ContentCheck.pinned]
  split
  next hpin =>
    rw [accepts_splitPin]
    exact ⟨fun ⟨hd,hc⟩ => ⟨⟨hd,hc⟩,hd digest hpin⟩,fun h => h.1⟩
  next hpin =>
    have hnone : (splitPin c).1 = none := by
      cases hd : (splitPin c).1 with
      | none => rfl
      | some d =>
        have := h d (by rw [pins_splitPin,hd]; simp)
        exact absurd (hd.trans (by rw [this])) hpin
    rw [splitPin_none hnone]
    simp only [ContentCheck.Accepts,ContentCheck.AcceptsAll,and_true]
    exact and_comm

theorem pins_pinned (h : ∀ d ∈ c.pinnedSha256s, d = digest) :
    ∀ d ∈ (c.pinned digest).pinnedSha256s, d = digest := by
  intro d hd
  rw [ContentCheck.pinned] at hd
  split at hd
  · exact h d hd
  · rw [pins_splitPin,splitPin_pinned] at hd
    obtain hd|hd := List.mem_append.mp hd
    · simpa using hd
    · exact h d (by rw [pins_splitPin]; exact List.mem_append_right _ hd)

end pinned

namespace Manifest

/-- Writes the check of the first artifact of that key. -/
def setCheck (key : ArtifactKey) (check : ContentCheck) : List Artifact → List Artifact
  | [] => []
  | artifact :: artifacts =>
    if artifact.key = key then { artifact with check }::artifacts
    else artifact::setCheck key check artifacts

/-- `pin_sha256` on the manifest it is called on: what it returns, and the manifest after it. -/
def pinInPlace (m : Manifest) (key : ArtifactKey) (digest : String) :
    Except DatastoreError Unit × Manifest :=
  match validateDigest digest with
  | .error e => (.error e,m)
  | .ok () =>
    match m.get key with
    | none => (.error (invalid s!"cannot pin unknown key {key.text}"),m)
    | some artifact =>
      match ensureCompatiblePin digest artifact.check with
      | .error e => (.error e,m)
      | .ok () =>
        let (pin,check) := splitPin artifact.check
        if pin = some digest then (.ok (),m)
        else (.ok (),⟨setCheck key (.all [.sha256 digest,check]) m.artifacts⟩)

section
variable {m : Manifest} {key : ArtifactKey} {digest : String}

theorem get_split {a : Artifact} (h : m.get key = some a) :
    ∃ before after, m.artifacts = before++a::after ∧ a.key = key ∧
      ∀ b ∈ before, b.key ≠ key := by
  obtain ⟨hkey,before,after,hm,hb⟩ := List.find?_eq_some_iff_append.mp h
  exact ⟨before,after,hm,by simpa using hkey,fun b hm => by simpa using hb b hm⟩

theorem get_append {before after : List Artifact} {a : Artifact} (ha : a.key = key)
    (hb : ∀ b ∈ before, b.key ≠ key) : Manifest.get ⟨before++a::after⟩ key = some a := by
  refine List.find?_eq_some_iff_append.mpr ⟨by simpa using ha,before,after,rfl,?_⟩
  exact fun b hm => by simpa using hb b hm

theorem setCheck_append {before after : List Artifact} {a : Artifact} {check : ContentCheck}
    (ha : a.key = key) (hb : ∀ b ∈ before, b.key ≠ key) :
    setCheck key check (before++a::after) = before++{ a with check }::after := by
  induction before with
  | nil => simp [setCheck,ha]
  | cons b before ih =>
    rw [List.cons_append,setCheck,if_neg (hb b (by simp)),ih fun b hm => hb b (by simp [hm])]
    rfl

theorem validateDigest_ok_iff : validateDigest digest = .ok () ↔ isDigest digest = true := by
  unfold validateDigest
  split <;> simp_all

theorem pinInPlace_error {e : DatastoreError} (h : (m.pinInPlace key digest).1 = .error e) :
    (m.pinInPlace key digest).2 = m := by
  unfold pinInPlace at h ⊢
  split
  next => rfl
  next hd =>
    rw [hd] at h
    split
    next => rfl
    next a ha =>
      rw [ha] at h
      dsimp only at h
      split
      next => rfl
      next hc =>
        rw [hc] at h
        dsimp only at h ⊢
        split
        next => rfl
        next hpin =>
          rw [if_neg hpin] at h
          cases h

theorem pinInPlace_found {a : Artifact} (hd : isDigest digest = true) (ha : m.get key = some a)
    (hpins : ∀ d ∈ a.check.pinnedSha256s, d = digest) :
    m.pinInPlace key digest = (.ok (),⟨setCheck key (a.check.pinned digest) m.artifacts⟩) := by
  rw [pinInPlace,validateDigest_ok_iff.mpr hd,ha]
  simp only [(ensureCompatiblePin_iff a.check).mpr hpins,ContentCheck.pinned]
  split
  next h =>
    obtain ⟨before,after,hm,hkey,hb⟩ := get_split ha
    obtain ⟨artifacts⟩ := m
    subst hm
    rw [setCheck_append hkey hb]
  next => rfl

theorem pinInPlace_again {a : Artifact} (hd : isDigest digest = true) (ha : m.get key = some a)
    (hpins : ∀ d ∈ a.check.pinnedSha256s, d = digest)
    (hpin : (splitPin a.check).1 = some digest) : m.pinInPlace key digest = (.ok (),m) := by
  rw [pinInPlace,validateDigest_ok_iff.mpr hd,ha]
  simp only [(ensureCompatiblePin_iff a.check).mpr hpins,hpin,if_true]

theorem pinInPlace_ok_iff : (m.pinInPlace key digest).1 = .ok () ↔ isDigest digest = true ∧
    ∃ a, m.get key = some a ∧ ∀ d ∈ a.check.pinnedSha256s, d = digest := by
  constructor
  · intro h
    unfold pinInPlace at h
    split at h
    · cases h
    next hd =>
      refine ⟨validateDigest_ok_iff.mp hd,?_⟩
      split at h
      · cases h
      next a ha =>
        refine ⟨a,ha,(ensureCompatiblePin_iff a.check).mp ?_⟩
        split at h
        · cases h
        next hc => exact hc
  · intro ⟨hd,a,ha,hpins⟩
    rw [pinInPlace_found hd ha hpins]

theorem pinFirst_append {before after : List Artifact} {a : Artifact} (ha : a.key = key)
    (hb : ∀ b ∈ before, b.key ≠ key) : pinFirst key digest (before++a::after) =
      (pinArtifact digest a).map fun a' => before++a'::after := by
  induction before with
  | nil =>
    rw [List.nil_append,pinFirst,if_pos ha]
    cases pinArtifact digest a <;> rfl
  | cons b before ih =>
    rw [List.cons_append,pinFirst,if_neg (hb b (by simp)),ih fun b hm => hb b (by simp [hm])]
    cases pinArtifact digest a <;> rfl

theorem pinFirst_none {artifacts : List Artifact} (h : ∀ a ∈ artifacts, a.key ≠ key) :
    pinFirst key digest artifacts = .error (invalid s!"cannot pin unknown key {key.text}") := by
  induction artifacts with
  | nil => rfl
  | cons a artifacts ih =>
    rw [pinFirst,if_neg (h a (by simp)),ih fun a hm => h a (by simp [hm])]
    rfl

/-- The two readings of the call agree. -/
theorem pinSha256_eq : m.pinSha256 key digest =
    (m.pinInPlace key digest).1.map fun _ => (m.pinInPlace key digest).2 := by
  unfold pinSha256 pinInPlace
  cases validateDigest digest with
  | error e => rfl
  | ok u =>
    dsimp only
    cases ha : m.get key with
    | none =>
      have hnone : ∀ a ∈ m.artifacts, a.key ≠ key := by
        simpa [Manifest.get] using ha
      rw [pinFirst_none hnone]
      rfl
    | some a =>
      obtain ⟨before,after,hm,hkey,hb⟩ := get_split ha
      obtain ⟨artifacts⟩ := m
      subst hm
      rw [pinFirst_append hkey hb,pinArtifact]
      cases hc : ensureCompatiblePin digest a.check with
      | error e =>
        simp only [hc]
        rfl
      | ok u =>
        simp only [hc,setCheck_append hkey hb]
        by_cases hpin : (splitPin a.check).1 = some digest
        · simp only [hpin,if_true]
          rfl
        · simp only [hpin,if_false]
          rfl

/-- When a pin is accepted, what it adds, and what a refusal leaves. -/
theorem pinInPlace_spec (H : Sha256) (m : Manifest) (key : ArtifactKey) (digest : String) :
    ((m.pinInPlace key digest).1 = .ok () ↔
      (digest.toList.length = 64 ∧
        ∀ c ∈ digest.toList, c.isDigit = true ∨ ('a' ≤ c ∧ c ≤ 'f')) ∧
      ∃ a, m.get key = some a ∧ ∀ d ∈ a.check.pinnedSha256s, d = digest) ∧
    ((m.pinInPlace key digest).1 = .ok () → ∃ before a check after,
      m.artifacts = before++a::after ∧ a.key = key ∧ (∀ b ∈ before, b.key ≠ key) ∧
      (m.pinInPlace key digest).2 = ⟨before++{ a with check }::after⟩ ∧
      (∀ body, check.check H body = .ok () ↔
        a.check.check H body = .ok () ∧ H.hex body = digest) ∧
      (∀ body, check.checkFile H body = .ok () ↔
        a.check.checkFile H body = .ok () ∧ H.hex body = digest) ∧
      (m.pinInPlace key digest).2.pinInPlace key digest =
        (.ok (),(m.pinInPlace key digest).2)) ∧
    ∀ e, (m.pinInPlace key digest).1 = .error e → (m.pinInPlace key digest).2 = m := by
  refine ⟨?_,?_,fun e he => pinInPlace_error he⟩
  · rw [pinInPlace_ok_iff]
    simp [isDigest]
  · intro h
    obtain ⟨hd,a,ha,hpins⟩ := pinInPlace_ok_iff.mp h
    obtain ⟨before,after,hm,hkey,hb⟩ := get_split ha
    have hafter : (m.pinInPlace key digest).2 =
        ⟨before++{ a with check := a.check.pinned digest }::after⟩ := by
      rw [pinInPlace_found hd ha hpins,hm,setCheck_append hkey hb]
    refine ⟨before,a,a.check.pinned digest,after,hm,hkey,hb,hafter,?_,?_,?_⟩
    · intro body
      rw [ContentCheck.check_iff,ContentCheck.check_iff]
      exact accepts_pinned hpins
    · intro body
      rw [ContentCheck.checkFile_iff,ContentCheck.checkFile_iff]
      exact accepts_pinned hpins
    · rw [hafter]
      exact pinInPlace_again (a := { a with check := a.check.pinned digest }) hd
        (get_append hkey hb) (pins_pinned hpins) splitPin_pinned_fst

end

/-- Entries of `other` replace matching keys in place; new keys are appended. -/
def merge (m other : Manifest) : Manifest :=
  ⟨other.artifacts.foldl (fun artifacts artifact => KeyedList.put Artifact.key artifact artifacts)
    m.artifacts⟩

def keys (m : Manifest) : List ArtifactKey := m.artifacts.map Artifact.key

theorem merge_eq (m other : Manifest) :
    m.merge other = ⟨KeyedList.overlay Artifact.key m.artifacts other.artifacts⟩ := rfl

/-- Merging manifests whose keys are distinct. -/
theorem merge_laws {a b c : Manifest} (ha : a.keys.Nodup) (hb : b.keys.Nodup)
    (hc : c.keys.Nodup) :
    (a.merge b).keys.Nodup ∧ (a.merge b).keys = a.keys++b.keys.filter (· ∉ a.keys) ∧
      (∀ key, (a.merge b).get key = (b.get key).or (a.get key)) ∧
      a.merge (b.merge c) = (a.merge b).merge c ∧ (a.merge b).merge b = a.merge b ∧
      a.merge ⟨[]⟩ = a ∧ Manifest.merge ⟨[]⟩ a = a := by
  refine ⟨KeyedList.nodup_overlay ha hb,KeyedList.keys_overlay hb,?_,?_,?_,rfl,?_⟩
  · intro key
    exact KeyedList.lookup_overlay hb key
  · simp only [merge_eq]
    rw [KeyedList.overlay_assoc ha hb hc]
  · simp only [merge_eq]
    rw [KeyedList.overlay_idem ha hb]
  · simp only [merge_eq]
    rw [KeyedList.nil_overlay ha]

/-- Two manifests that share a key, and a third one. -/
theorem merge_laws_shared :
    let a : Manifest := ⟨[.sample]⟩
    let b : Manifest := ⟨[{ Artifact.sample with expectedBytes := none }]⟩
    let c : Manifest := ⟨[]⟩
    (a.merge b).keys.Nodup ∧ (a.merge b).keys = a.keys++b.keys.filter (· ∉ a.keys) ∧
      (∀ key, (a.merge b).get key = (b.get key).or (a.get key)) ∧
      a.merge (b.merge c) = (a.merge b).merge c ∧ (a.merge b).merge b = a.merge b ∧
      a.merge ⟨[]⟩ = a ∧ Manifest.merge ⟨[]⟩ a = a :=
  merge_laws (by simp [keys]) (by simp [keys]) (by simp [keys])

end Manifest
end StarfieldDatastore
