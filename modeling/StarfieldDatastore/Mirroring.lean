import StarfieldDatastore.Admin
import StarfieldDatastore.Integrity
import StarfieldDatastore.ManifestEdit
import StarfieldDatastore.ObjectCheck
import StarfieldDatastore.Serving
import StarfieldDatastore.UploadRace
import StarfieldDatastore.WriteBack

/-! `mirror`: every artifact of a manifest is fetched, uploaded and pinned, one after the other, while
others work on the same cache root and on the same bucket. -/
namespace StarfieldDatastore
open Interleaving

/-- The mirror has an object for the artifact, and its metadata describe content that the artifact asks for. -/
def Mirrored (H : Sha256) (S : Set Bytes) (m : S3Mirror) (b : Bucket) (artifact : Artifact) (digest : String) :
    Prop :=
  ∃ v info body, b.object (m.path artifact.key) = some v ∧ mirrorObject v.head = .ok info ∧
    info.sha256 = digest ∧ info.bytes = body.length ∧ body ∈ S ∧ H.hex body = digest ∧ artifact.Wants H body

/-- The artifact with a pin added to its check, to the digest of an object in the mirror. -/
structure Pinned (H : Sha256) (S : Set Bytes) (m : S3Mirror) (b : Bucket) (a a' : Artifact) : Prop where
  key : a'.key = a.key
  sources : a'.sources = a.sources
  bytes : a'.expectedBytes = a.expectedBytes
  provenance : a'.provenance = a.provenance
  check : ∃ digest, (splitPin a'.check).1 = some digest ∧ Mirrored H S m b a' digest ∧ ∀ body,
    a'.check.check H body = .ok () ↔ a.check.check H body = .ok () ∧ H.hex body = digest

/-- What may become of an artifact while its manifest is mirrored. -/
def Advanced (H : Sha256) (S : Set Bytes) (m : S3Mirror) (b : Bucket) (a a' : Artifact) : Prop :=
  a.Same a' ∨ Pinned H S m b a a'

section pinned
variable {H : Sha256} {S : Set Bytes} {m : S3Mirror} {b b' : Bucket} {a a' : Artifact} {digest : String}
  {v : Version} {info : MirrorObject} {body : Bytes}

theorem Mirrored.kept (hb : ∀ path v, b.object path = some v → b'.object path = some v)
    (h : Mirrored H S m b a digest) : Mirrored H S m b' a digest := by
  obtain ⟨v,info,body,hv,hrest⟩ := h
  exact ⟨v,info,body,hb _ v hv,hrest⟩

theorem Pinned.kept (hb : ∀ path v, b.object path = some v → b'.object path = some v)
    (h : Pinned H S m b a a') : Pinned H S m b' a a' := by
  obtain ⟨digest,hpin,hmirrored,hcheck⟩ := h.check
  exact ⟨h.key,h.sources,h.bytes,h.provenance,digest,hpin,hmirrored.kept hb,hcheck⟩

theorem Mirrored.accepted (h : Mirrored H S m b a digest) : Accepted m b a := by
  obtain ⟨v,info,body,hv,hmeta,rfl,hbytes,-,hhex,hwants⟩ := h
  exact ⟨v,info,hv,hmeta,checkMetadata_of_wants hwants hhex hbytes.symm⟩

theorem Pinned.normal (h : Pinned H S m b a a') : Pinned H S m b a a'.normal := by
  obtain ⟨digest,hpin,⟨v,info,body,hv,hmeta,hsha,hbytes,hS,hhex,hsize,haccepts⟩,hcheck⟩ := h.check
  refine ⟨h.key,h.sources,h.bytes,h.provenance,digest,?_,?_,fun body => ?_⟩
  · rw [Artifact.normal,splitPin_normal]
    exact hpin
  · exact ⟨v,info,body,hv,hmeta,hsha,hbytes,hS,hhex,hsize,accepts_normal.mpr haccepts⟩
  · rw [← hcheck]
    exact a'.same_normal.accepts H body

/-- Once content that an artifact asks for is in the mirror, the artifact can be pinned to it. -/
theorem pinned_of_carries (hv : b.object (m.path a.key) = some v) (hcarries : v.Carries info) (hS : body ∈ S)
    (hhex : H.hex body = info.sha256) (hbytes : body.length = info.bytes) (hwants : a.Wants H body) :
    (∀ d ∈ a.check.pinnedSha256s, d = info.sha256) ∧
      Pinned H S m b a { a with check := a.check.pinned info.sha256 } := by
  obtain ⟨found,hmeta,hsha,hlen⟩ := mirrorObject_of_carries hcarries (hhex ▸ H.shape body)
  have hpins : ∀ d ∈ a.check.pinnedSha256s, d = info.sha256 := by
    intro d hd
    rw [← hhex]
    exact ((ContentCheck.accepts_iff_pins _).mp hwants.2).1 d hd
  refine ⟨hpins,rfl,rfl,rfl,rfl,info.sha256,splitPin_pinned_fst,?_,fun content => ?_⟩
  · exact ⟨v,found,body,hv,hmeta,hsha,hlen.trans hbytes.symm,hS,hhex,hwants.1,
      (accepts_pinned hpins).mpr ⟨hwants.2,hhex⟩⟩
  · rw [ContentCheck.check_iff,ContentCheck.check_iff]
    exact accepts_pinned hpins

namespace Manifest
variable {T : TomlCrate} {U : UrlCrate} {before after : List Artifact} {M : Manifest}

/-- A pin that the check allows is set in the place of the artifact. -/
theorem pinSha256_ok (hM : (M.artifacts.map (·.key)).Nodup) (hsplit : M.artifacts = before++a::after)
    (hdigest : isDigest digest = true) (hpins : ∀ d ∈ a.check.pinnedSha256s, d = digest) :
    M.pinSha256 a.key digest = .ok ⟨before++{ a with check := a.check.pinned digest }::after⟩ := by
  obtain ⟨artifacts⟩ := M
  subst hsplit
  have hbefore : ∀ b ∈ before, b.key ≠ a.key := by
    intro b hb heq
    simp only [List.map_append,List.map_cons] at hM
    have hdisjoint := (List.nodup_append.mp hM).2.2
    exact hdisjoint _ (List.mem_map_of_mem hb) _ List.mem_cons_self heq
  rw [pinSha256_eq,pinInPlace_found hdigest (get_append rfl hbefore) hpins,setCheck_append rfl hbefore]
  rfl

/-- An artifact is found under its key, which no other has. -/
theorem lists_of_mem (hM : (M.artifacts.map (·.key)).Nodup) (ha : a ∈ M.artifacts) : M.Lists a := by
  obtain ⟨before,after,hsplit⟩ := List.append_of_mem ha
  obtain ⟨artifacts⟩ := M
  subst hsplit
  refine get_append rfl fun b hb heq => ?_
  simp only [List.map_append,List.map_cons] at hM
  exact (List.nodup_append.mp hM).2.2 _ (List.mem_map_of_mem hb) _ List.mem_cons_self heq

end Manifest
end pinned
/-- Every object that was there still is. -/
def Bucket.Grows (b b' : Bucket) : Prop := ∀ path v, b.object path = some v → b'.object path = some v

/-- The cache and the bucket are in order, and the manifest file has come from `m₀` by pins only. -/
structure Sane (T : TomlCrate) (H : Sha256) (U : UrlCrate) (S : Set Bytes) (m : S3Mirror) (m₀ : Manifest)
    (s : Site) : Prop where
  known : Known H S s.world
  truthful : AllTruthful H s.bucket
  file : ∃ M, Manifest.fromTomlStr T U s.text = .ok M ∧
    List.Forall₂ (Advanced H S m s.bucket) m₀.artifacts M.artifacts

/-- What the others do while `t` works. Only `t₀` writes the manifest file. -/
structure Around (H : Sha256) (S : Set Bytes) (m₀ : Manifest) (t₀ t : ThreadId) (s s' : Site) : Prop where
  world : (shelfSetting H S m₀.Lists t).rely s.world s'.world
  bucket : ∀ path, Others path True t s.bucket s'.bucket
  text : t = t₀ → s'.text = s.text

/-- What `t` does itself: the cache stays in order, no object is displaced, and the file stays what it has
to be. -/
structure Upkeep (T : TomlCrate) (H : Sha256) (U : UrlCrate) (S : Set Bytes) (m : S3Mirror) (m₀ : Manifest)
    (t₀ t : ThreadId) (s s' : Site) : Prop where
  world : s'.world = s.world ∨ shelfGuar H S m₀.Lists t s.world s'.world
  bucket : ∀ path, Caller H path (fun _ => False) t s.bucket s'.bucket
  text : t ≠ t₀ → s'.text = s.text
  sane : Sane T H U S m m₀ s → Sane T H U S m m₀ s'

/-- One thread among others on a site. -/
def siteSetting (T : TomlCrate) (H : Sha256) (U : UrlCrate) (S : Set Bytes) (m : S3Mirror) (m₀ : Manifest)
    (t₀ t : ThreadId) : Setting AdminCall AdminCall.Ret Site where
  step c s r s' := Sane T H U S m m₀ s ∧ c.Does t s r s' ∧ s'.world.contents ⊆ S
  rely := Around H S m₀ t₀ t
  guar := Upkeep T H U S m m₀ t₀ t
  rely_refl _ := ⟨(shelfSetting H S m₀.Lists t).rely_refl _,fun _ => .refl _,fun _ => rfl⟩
  rely_trans h h' := ⟨(shelfSetting H S m₀.Lists t).rely_trans h.world h'.world,
    fun path => (h.bucket path).trans (h'.bucket path),fun ht => (h'.text ht).trans (h.text ht)⟩

section site
variable {T : TomlCrate} {H : Sha256} {U : UrlCrate} {S : Set Bytes} {m : S3Mirror} {m₀ : Manifest}
  {t₀ t : ThreadId} {s s' : Site} {α : Type}

theorem Bucket.Grows.refl (b : Bucket) : b.Grows b := fun _ _ h => h

theorem Bucket.Grows.trans {b b' b'' : Bucket} (h : b.Grows b') (h' : b'.Grows b'') : b.Grows b'' :=
  fun path v hv => h' path v (h path v hv)

theorem Around.grows (h : Around H S m₀ t₀ t s s') : s.bucket.Grows s'.bucket :=
  fun path v hv => (h.bucket path).keeps trivial v hv

theorem Upkeep.grows (h : Upkeep T H U S m m₀ t₀ t s s') : s.bucket.Grows s'.bucket :=
  fun path v hv => ((h.bucket path).keeps v hv).resolve_right id

theorem Advanced.kept {b b' : Bucket} {a a' : Artifact} (hb : b.Grows b') (h : Advanced H S m b a a') :
    Advanced H S m b' a a' := h.imp id fun h => h.kept hb

/-- A step on the cache root. -/
theorem store_upkeep {w' : World} (hguar : shelfGuar H S m₀.Lists t s.world w')
    (hsub : w'.contents ⊆ S) : Upkeep T H U S m m₀ t₀ t s { s with world := w' } where
  world := .inr hguar
  bucket _ := .refl
  text _ := rfl
  sane h := ⟨⟨hguar.2.consistent h.known.consistent,hsub⟩,h.truthful,h.file⟩

/-- A request to S3 that displaces nothing. -/
theorem s3_upkeep {b' : Bucket} (hguar : ∀ path, Caller H path (fun _ => False) t s.bucket b') :
    Upkeep T H U S m m₀ t₀ t s { s with bucket := b' } where
  world := .inl rfl
  bucket := hguar
  text _ := rfl
  sane h := by
    have hgrows : s.bucket.Grows b' := fun path v hv => ((hguar path).keeps v hv).resolve_right id
    obtain ⟨M,hread,hall⟩ := h.file
    exact ⟨h.known,(hguar "").truthful h.truthful,M,hread,hall.imp fun _ _ h => h.kept hgrows⟩

/-- A program on the cache root, as a part of a command. -/
theorem onStore_holds {p : Prog α} {Q : α → World → Prop} {A : Site → Prop}
    (hp : p.Holds { shelfSetting H S m₀.Lists t with guar := shelfGuar H S m₀.Lists t } Q s.world)
    (hrely : ∀ s s', Around H S m₀ t₀ t s s' → A s → A s')
    (hown : ∀ s w', A s → A { s with world := w' }) (hs : A s) :
    (p.embed Admin.inStore).Holds (siteSetting T H U S m m₀ t₀ t) (fun a s' => Q a s'.world ∧ A s') s := by
  have hall : p.Only fun _ => True := .of_forall fun _ => trivial
  have hview : ∀ s s', Around H S m₀ t₀ t s s' → A s →
      (shelfSetting H S m₀.Lists t).rely s.world s'.world ∧ A s' := fun s s' h hA => ⟨h.world,hrely s s' h hA⟩
  apply Program.Holds.embed (e := Admin.inStore) hp hall hview _ hs
  rintro c s r s' - hA ⟨hsane,⟨w',hdoes,rfl⟩,hsub⟩
  exact ⟨⟨hsane.known,hdoes,hsub⟩,fun hguar => ⟨store_upkeep hguar hsub,hown s w' hA⟩⟩

/-- A program on the cache root takes no object away. -/
theorem onStore_grows (β : Type) (p : Prog β) (Q : β → World → Prop) (s₁ : Site) (hg : s.bucket.Grows s₁.bucket)
    (hp : p.Holds { shelfSetting H S m₀.Lists t with guar := shelfGuar H S m₀.Lists t } Q s₁.world) :
    (p.embed Admin.inStore).Holds (siteSetting T H U S m m₀ t₀ t)
      (fun out s' => Q out s'.world ∧ s.bucket.Grows s'.bucket) s₁ := by
  have hrely : ∀ s₁ s₂, Around H S m₀ t₀ t s₁ s₂ → s.bucket.Grows s₁.bucket → s.bucket.Grows s₂.bucket :=
    fun _ _ h hg => hg.trans h.grows
  exact onStore_holds (A := fun s₁ => s.bucket.Grows s₁.bucket) hp hrely (fun _ _ h => h) hg

/-- Requests to S3 that displace nothing, as a part of a command. -/
theorem onS3_holds {path : String} {p : Program S3Call S3Call.Ret α} {Q : α → Bucket → Prop} {A : Site → Prop}
    (hp : p.Holds (racing H path (fun _ => False) True t) Q s.bucket) (hgentle : p.Only S3Call.Gentle)
    (hrely : ∀ s s', Around H S m₀ t₀ t s s' → A s → A s')
    (hown : ∀ s b', s.bucket.Grows b' → A s → A { s with bucket := b' }) (hs : A s) :
    (p.embed Admin.inS3).Holds (siteSetting T H U S m m₀ t₀ t) (fun a s' => Q a s'.bucket ∧ A s') s := by
  have hview : ∀ s s', Around H S m₀ t₀ t s s' → A s → Others path True t s.bucket s'.bucket ∧ A s' :=
    fun s s' h hA => ⟨h.bucket path,hrely s s' h hA⟩
  apply Program.Holds.embed (e := Admin.inS3) hp hgentle hview _ hs
  rintro c s r s' hc hA ⟨hsane,⟨b',hdoes,rfl⟩,-⟩
  refine ⟨⟨hsane.truthful,hdoes⟩,fun hguar => ?_⟩
  have hall := hdoes.gentle hc hguar.truthful
  exact ⟨s3_upkeep hall,hown s b' (fun path v hv => ((hall path).keeps v hv).resolve_right id) hA⟩

/-- A step on the manifest file that leaves it as it is. -/
theorem onManifest_holds {c : ManifestCall} {f : c.Out → AdminOp α} {Q : Except DatastoreError α → Site → Prop}
    (hc : ∀ text, c ≠ .persist text) (herror : ∀ e s, Q (.error e) s)
    (h : ∀ s' a, Around H S m₀ t₀ t s s' → Sane T H U S m m₀ s' → c.Does s'.text (.ok a) s'.text →
      (f a).run.Holds (siteSetting T H U S m m₀ t₀ t) Q s') :
    (onManifest c >>= f).run.Holds (siteSetting T H U S m m₀ t₀ t) Q s := by
  refine Program.Holds.bind_run (Program.Holds.perform_bind fun s₁ hs₁ r s₂ hstep => ?_)
  obtain ⟨hsane,⟨text,hdoes,rfl⟩,-⟩ := hstep
  have hsame : text = s₁.text := by
    cases hdoes with
    | persist => exact absurd rfl (hc _)
    | _ => rfl
  subst hsame
  refine ⟨⟨.inl rfl,fun _ => .refl,fun _ => rfl,id⟩,?_⟩
  cases r with
  | error e => exact fun s₃ _ => herror _ s₃
  | ok a =>
    exact fun s₃ hs₃ => (h s₁ a hs₁ hsane hdoes).stable hs₃

theorem advanced_of_same {M : Manifest} {b : Bucket} (h : List.Forall₂ (Advanced H S m b) m₀.artifacts M.artifacts) :
    List.Forall₂ (Advanced H S m b) m₀.artifacts M.normal.artifacts := by
  unfold Manifest.normal
  rw [List.forall₂_map_right_iff]
  refine h.imp fun a a' ha => ha.imp (fun hsame => ?_) Pinned.normal
  have hnormal := a'.same_normal
  exact ⟨hsame.key,hsame.sources,hsame.bytes,hsame.provenance,
    fun H body => (hnormal.accepts H body).trans (hsame.accepts H body),
    fun digest => (hnormal.pins digest).trans (hsame.pins digest)⟩

/-- The manifest is written as a whole or not at all. -/
theorem atomicManifest_holds (hT : T.RoundTrips) (hC : T.Complete) {M : Manifest}
    (hM : Manifest.AllWritable U [] M.artifacts)
    (hadvanced : List.Forall₂ (Advanced H S m s.bucket) m₀.artifacts M.artifacts) :
    (atomicManifest T U M).run.Holds (siteSetting T H U S m m₀ t₀ t₀) (fun out s' => out = .ok () →
      s.bucket.Grows s'.bucket ∧ Manifest.fromTomlStr T U s'.text = .ok M.normal) s := by
  obtain ⟨text,hwrite,hread,-⟩ := Manifest.written hT hC hM
  refine onManifest_holds (by simp) (fun e s h => by cases h) fun s₁ _ hs₁ _ _ => ?_
  refine Program.Holds.except_bind (fun text' htext => ?_) fun e he s₂ _ h => (by cases h)
  cases hwrite.symm.trans htext
  refine onManifest_holds (by simp) (fun e s h => by cases h) fun s₂ _ hs₂ _ _ => ?_
  refine onManifest_holds (by simp) (fun e s h => by cases h) fun s₃ _ hs₃ _ _ => ?_
  refine Program.Holds.bind_run (Program.Holds.perform_bind fun s₄ hs₄ r s₅ hstep => ?_)
  have hgrows : s.bucket.Grows s₄.bucket :=
    hs₁.grows.trans (hs₂.grows.trans (hs₃.grows.trans hs₄.grows))
  obtain ⟨hsane,⟨text',hdoes,rfl⟩,-⟩ := hstep
  cases hdoes with
  | fails => exact ⟨⟨.inl rfl,fun _ => .refl,fun _ => rfl,id⟩,fun s₆ _ h => by cases h⟩
  | persist =>
    refine ⟨⟨.inl rfl,fun _ => .refl,fun h => absurd rfl h,fun _ => ⟨hsane.known,hsane.truthful,M.normal,hread,?_⟩⟩,
      fun s₆ hs₆ => ?_⟩
    · exact advanced_of_same (hadvanced.imp fun _ _ h => h.kept hgrows)
    · refine Program.Holds.perform_bind fun s₇ hs₇ r s₈ hstep => ?_
      obtain ⟨-,⟨text',hdoes,rfl⟩,-⟩ := hstep
      have hsame : text' = s₇.text := by cases hdoes <;> rfl
      subst hsame
      refine ⟨⟨.inl rfl,fun _ => .refl,fun _ => rfl,id⟩,fun s₈ hs₈ _ => ?_⟩
      refine ⟨hgrows.trans (hs₆.grows.trans (hs₇.grows.trans hs₈.grows)),?_⟩
      rw [hs₈.text rfl,hs₇.text rfl,hs₆.text rfl]
      exact hread

variable {ds : Datastore} {a : Artifact} {w : World}

/-- What the upload is told describes what the artifact asks for, whoever wrote the entry. -/
theorem metadata_shelf (hl : m₀.Lists a) (hw : Attested H S a none w) :
    (metadata ds a.key).run.Asks (shelfSetting H S m₀.Lists t) (fun _ _ => True) (fun out _ => ∀ info, out = .ok info →
      ∃ body ∈ S, H.hex body = info.sha256 ∧ body.length = info.bytes ∧ a.Wants H body) w := by
  refine Program.Asks.bind_run (Program.Asks.bind ((entry_shelf (fun _ _ _ => trivial) m₀.onePerKey hl hw).mono
    fun found w₁ hfound w₂ _ => ?_))
  cases found with
  | none => exact fun w₃ _ info h => by cases h
  | some entry =>
    intro w₃ _ info h
    cases h
    obtain ⟨body,hv⟩ := hfound entry rfl
    exact ⟨body,hv.known,hv.digest,hv.bytes,hv.wants⟩

theorem metadata_promises (hS : Set.InjOn H.hex S) (hl : m₀.Lists a) (hw : Attested H S a none w) :
    (metadata ds a.key).run.Holds { shelfSetting H S m₀.Lists t with guar := shelfGuar H S m₀.Lists t }
      (fun out _ => ∀ info, out = .ok info →
        ∃ body ∈ S, H.hex body = info.sha256 ∧ body.length = info.bytes ∧ a.Wants H body) w := by
  refine (shelf_promises hS (metadata_shelf hl hw) (idle_shared ?_)).holds
  refine .bind_run (.lift (entry_only (.inl rfl) fun _ => .inl rfl)) fun found => ?_
  cases found with
  | none => trivial
  | some entry => trivial

theorem get_promises (hS : Set.InjOn H.hex S) (hl : m₀.Lists a) :
    (ds.get H U a).run.Holds { shelfSetting H S m₀.Lists t with guar := shelfGuar H S m₀.Lists t }
      (Concluded (fun _ => True) (Shelved H S a) id) w := by
  have hshared : (ds.get H U a).run.Holds (sharedSetting H t) (fun _ _ => True) w :=
    (get_holds guarded_sharedSetting fun h => h.elim).mono fun _ _ _ => trivial
  have hP : ∀ (c : Call) (w : World), ¬ c.Puts → (fun _ _ => True : Call → World → Prop) c w := fun _ _ _ => trivial
  exact (shelf_promises hS (get_shelf hP hS m₀.onePerKey hl) hshared).holds

theorem readBlob_promises (hS : Set.InjOn H.hex S) (digest : String) :
    (io (.readBlob digest)).run.Holds { shelfSetting H S m₀.Lists t with guar := shelfGuar H S m₀.Lists t }
      (fun _ _ => True) w := by
  have hquiet : (io (.readBlob digest)).run.Only Call.Quiet := io_only (quiet_fs (by simp))
  have hidle : (io (.readBlob digest)).run.Only Call.Idle := io_only (.inl rfl)
  exact (shelf_promises hS (quiet_shelf (P := fun _ _ => True) (fun _ _ _ => trivial) hquiet) (idle_shared hidle)).holds

/-- An upload begins with what the cache holds: its metadata describe content that the artifact asks for. -/
theorem prepare_holds {E : Setting AdminCall AdminCall.Ret Site} {A : Site → Prop} (hS : Set.InjOn H.hex S)
    (hl : m₀.Lists a)
    (hstore : ∀ (β : Type) (p : Prog β) (Q : β → World → Prop) (s : Site), A s →
      p.Holds { shelfSetting H S m₀.Lists t with guar := shelfGuar H S m₀.Lists t } Q s.world →
        (p.embed Admin.inStore).Holds E (fun out s' => Q out s'.world ∧ A s') s)
    {f : MirrorObject → Bytes → AdminOp α} {Q : Except DatastoreError α → Site → Prop} (hs : A s)
    (herror : ∀ e s', Q (.error e) s')
    (h : ∀ info blob body s', A s' → body ∈ S → H.hex body = info.sha256 → body.length = info.bytes → a.Wants H body →
      (f info blob).run.Holds E Q s') :
    (do
      let path ← onStore (ds.get H U a)
      let info ← onStore (metadata ds a.key)
      let blob ← onStore (io (.readBlob (path.getLastD "")))
      f info blob : AdminOp α).run.Holds E Q s := by
  refine Program.Holds.bind_run ((hstore _ _ _ _ hs (get_promises hS hl)).mono ?_)
  rintro out s₁ ⟨hget,hs₁⟩
  cases out with
  | error e => exact herror e s₁
  | ok path =>
    refine Program.Holds.bind_run ((hstore _ _ _ _ hs₁ (metadata_promises hS hl hget.attested)).mono ?_)
    rintro out s₂ ⟨hinfo,hs₂⟩
    cases out with
    | error e => exact herror e s₂
    | ok info =>
      obtain ⟨body,hbody,hhex,hbytes,hwants⟩ := hinfo info rfl
      refine Program.Holds.bind_run ((hstore _ _ _ _ hs₂ (readBlob_promises hS _)).mono ?_)
      rintro out s₃ ⟨-,hs₃⟩
      cases out with
      | error e => exact herror e s₃
      | ok blob => exact h info blob body s₃ hs₃ hbody hhex hbytes hwants

theorem Artifact.Same.refl (a : Artifact) : a.Same a := ⟨rfl,rfl,rfl,rfl,fun _ _ => Iff.rfl,fun _ => Iff.rfl⟩

/-- One artifact is pinned, and the manifest on disk says so. -/
theorem mirrorArtifact_holds (hT : T.RoundTrips) (hC : T.Complete) (hS : Set.InjOn H.hex S)
    (hsize : ∀ body ∈ S, body.length < 2^64) {before before' after : List Artifact} {M : Manifest}
    (hlist : m₀.artifacts = before++a::after) (hl : m₀.Lists a) (hsplit : M.artifacts = before'++a::after)
    (hM : Manifest.AllWritable U [] M.artifacts)
    (hdone : List.Forall₂ (Pinned H S m s.bucket) before before') :
    (mirrorArtifact T H U ds m M a).run.Holds (siteSetting T H U S m m₀ t₀ t₀) (fun out s' => ∀ M', out = .ok M' →
      Manifest.AllWritable U [] M'.artifacts ∧ Manifest.fromTomlStr T U s'.text = .ok M'.normal ∧
      s.bucket.Grows s'.bucket ∧ ∃ a', M'.artifacts = before'++a'::after ∧ Pinned H S m s'.bucket a a') s := by
  have hrely : ∀ s₁ s₂, Around H S m₀ t₀ t₀ s₁ s₂ → s.bucket.Grows s₁.bucket → s.bucket.Grows s₂.bucket :=
    fun _ _ h hg => hg.trans h.grows
  unfold mirrorArtifact
  split
  · exact fun s' _ M' h => by cases h
  · apply prepare_holds (f := fun info blob => do
      let _ ← onS3 (m.put H U a.key blob info)
      let manifest ← M.pinSha256 a.key info.sha256
      atomicManifest T U manifest
      return manifest) (A := fun s₁ => s.bucket.Grows s₁.bucket) hS hl onStore_grows (.refl _)
    · intro e s' M' h
      cases h
    intro info blob body s₃ hg₃ hbody hhex hbytes hwants
    have hput : (m.put H U a.key blob info).run.Holds (racing H (m.path a.key) (fun _ => False) True t₀)
        (Uploaded (m.path a.key) True t₀ info s₃.bucket) s₃.bucket :=
      put_holds (hbytes ▸ hsize body hbody) (.refl _ _)
    refine Program.Holds.bind_run ((onS3_holds hput put_gentle hrely (fun s₄ b' h hg => hg.trans h) hg₃).mono ?_)
    rintro out s₄ ⟨huploaded,hg₄⟩
    cases out with
    | error e => exact fun M' h => by cases h
    | ok outcome =>
      obtain ⟨v,-,hcarries,hv,-⟩ := huploaded.2 outcome rfl
      obtain ⟨hpins,hpinned⟩ := pinned_of_carries (hv trivial) hcarries hbody hhex hbytes hwants
      have hpin := Manifest.pinSha256_ok hM.1 hsplit (hhex ▸ H.shape body) hpins
      refine Program.Holds.except_bind (fun M' hM' => ?_) (fun e he => by rw [hpin] at he; cases he)
      cases hpin.symm.trans hM'
      have hall : List.Forall₂ (Advanced H S m s₄.bucket) m₀.artifacts
          (before'++{ a with check := a.check.pinned info.sha256 }::after) := by
        rw [hlist]
        refine List.rel_append (hdone.imp fun _ _ h => .inr (h.kept hg₄)) (.cons (.inr hpinned) ?_)
        exact List.forall₂_same.mpr fun b _ => .inl (.refl b)
      have hwritable := Manifest.pinSha256_writable hpin hM
      refine Program.Holds.bind_run ((atomicManifest_holds hT hC hwritable hall).mono fun out s₅ hwritten => ?_)
      cases out with
      | error e => exact fun M' h => by cases h
      | ok _ =>
        obtain ⟨hg₅,hread⟩ := hwritten rfl
        intro s₆ hs₆ M' h
        cases h
        refine ⟨hwritable,?_,hg₄.trans (hg₅.trans hs₆.grows),_,rfl,hpinned.kept (hg₅.trans hs₆.grows)⟩
        rw [hs₆.text rfl]
        exact hread

/-- The rest of the artifacts, when those before them are pinned. -/
theorem mirrorArtifacts_holds (hT : T.RoundTrips) (hC : T.Complete) (hS : Set.InjOn H.hex S)
    (hsize : ∀ body ∈ S, body.length < 2^64) (hlists : ∀ a ∈ m₀.artifacts, m₀.Lists a) (after : List Artifact) :
    ∀ {before before' : List Artifact} {M : Manifest} {s : Site}, m₀.artifacts = before++after →
      M.artifacts = before'++after → Manifest.AllWritable U [] M.artifacts →
      List.Forall₂ (Pinned H S m s.bucket) before before' →
      (∃ N, Manifest.fromTomlStr T U s.text = .ok N ∧ (N = M.normal ∨ before = [] ∧ N = M)) →
      (mirrorArtifacts T H U ds m M after).run.Holds (siteSetting T H U S m m₀ t₀ t₀) (fun out s' => out = .ok () →
        ∃ N, Manifest.fromTomlStr T U s'.text = .ok N ∧
          List.Forall₂ (Pinned H S m s'.bucket) m₀.artifacts N.artifacts) s := by
  induction after with
  | nil =>
    intro before before' M s hlist hsplit hM hdone ⟨N,hread,hN⟩ s' hs' _
    refine ⟨N,(congrArg _ (hs'.text rfl)).trans hread,?_⟩
    rw [List.append_nil] at hlist hsplit
    rw [hlist]
    rcases hN with rfl | ⟨rfl,rfl⟩
    · unfold Manifest.normal
      rw [List.forall₂_map_right_iff,hsplit]
      exact hdone.imp fun _ _ h => (h.kept hs'.grows).normal
    · cases hdone
      rw [hsplit]
      exact .nil
  | cons a after ih =>
    intro before before' M s hlist hsplit hM hdone hfile
    have hl : m₀.Lists a := hlists a (by rw [hlist]; simp)
    refine Program.Holds.bind_run ((mirrorArtifact_holds hT hC hS hsize hlist hl hsplit hM hdone).mono
      fun out s₁ hout => ?_)
    cases out with
    | error e => exact fun h => by cases h
    | ok M' =>
      obtain ⟨hM',hread,hgrows,a',hsplit',hpinned⟩ := hout M' rfl
      have hnow : List.Forall₂ (Pinned H S m s₁.bucket) (before++[a]) (before'++[a']) :=
        List.rel_append (hdone.imp fun _ _ h => h.kept hgrows) (.cons hpinned .nil)
      exact ih (by rw [hlist]; simp) (by rw [hsplit']; simp) hM' hnow ⟨_,hread,.inl rfl⟩

theorem mirrorManifest_holds (hT : T.RoundTrips) (hC : T.Complete) (hS : Set.InjOn H.hex S)
    (hsize : ∀ body ∈ S, body.length < 2^64) (hread : Manifest.fromTomlStr T U s.text = .ok m₀) :
    (mirrorManifest T H U ds m).run.Holds (siteSetting T H U S m m₀ t₀ t₀) (fun out s' => out = .ok () →
      ∃ N, Manifest.fromTomlStr T U s'.text = .ok N ∧
        List.Forall₂ (Pinned H S m s'.bucket) m₀.artifacts N.artifacts) s := by
  refine onManifest_holds (by simp) (fun e s h => by cases h) fun s₁ _ hs₁ _ _ => ?_
  refine onManifest_holds (by simp) (fun e s h => by cases h) fun s₂ text hs₂ _ hdoes => ?_
  have hsame : text = s₂.text := by cases hdoes; rfl
  have hstart : Manifest.fromTomlStr T U s₂.text = .ok m₀ := by
    rw [hs₂.text rfl,hs₁.text rfl]
    exact hread
  subst hsame
  refine Program.Holds.except_bind (fun M hM => ?_) fun e he => by rw [hstart] at he; cases he
  cases hstart.symm.trans hM
  have hwritable := Manifest.fromTomlStr_writable hC hread
  have hlists : ∀ a ∈ m₀.artifacts, m₀.Lists a := fun a ha => Manifest.lists_of_mem hwritable.1 ha
  have hlist : m₀.artifacts = []++m₀.artifacts := rfl
  exact mirrorArtifacts_holds hT hC hS hsize hlists m₀.artifacts hlist hlist hwritable .nil
    ⟨m₀,hstart,.inr ⟨rfl,rfl⟩⟩

end site

/-- What a thread does: mirror the manifest, work on the cache root, or put some object. -/
inductive Chore
  | mirror
  | operations (ops : List Operation)
  | put (key : ArtifactKey) (p : Proposal)

namespace Chore

def program (T : TomlCrate) (H : Sha256) (U : UrlCrate) (ds : Datastore) (m : S3Mirror) :
    Chore → Program AdminCall AdminCall.Ret (Option (Except DatastoreError Unit))
  | .mirror => (mirrorManifest T H U ds m).run >>= fun out => .done (some out)
  | .operations ops => (runAll H U ops).embed Admin.inStore >>= fun _ => .done none
  | .put key p => (m.put H U key p.blob p.info).run.embed Admin.inS3 >>= fun _ => .done none

def Within (listed : Artifact → Prop) : Chore → Prop
  | .operations ops => ∀ op ∈ ops, op.Within listed
  | _ => True

end Chore

/-- A mirror command and whoever else works on its cache root and its bucket. A thread can be killed
between any two steps. -/
def mirroring (T : TomlCrate) (H : Sha256) (U : UrlCrate) (S : Set Bytes) (ds : Datastore) (m : S3Mirror)
    (chore : ThreadId → Chore) :
    System ThreadId AdminCall AdminCall.Ret Site (Option (Except DatastoreError Unit)) where
  step t c s r s' := c.Does t s r s' ∧ s'.world.contents ⊆ S
  launch t _ p := p = (chore t).program T H U ds m
  kill t s s' := s' = { s with world := s.world.release t }

section mirroring
variable {T : TomlCrate} {H : Sha256} {U : UrlCrate} {S : Set Bytes} {ds : Datastore} {m : S3Mirror}
  {m₀ : Manifest} {chore : ThreadId → Chore} {t₀ t : ThreadId} {s : Site} {text₀ : String}

theorem chore_holds (hT : T.RoundTrips) (hC : T.Complete) (hS : Set.InjOn H.hex S)
    (hsize : ∀ body ∈ S, body.length < 2^64) (hread : Manifest.fromTomlStr T U text₀ = .ok m₀) {chore : Chore}
    (hmirror : chore = .mirror → t = t₀) (hchore : chore.Within m₀.Lists) (htext : t = t₀ → s.text = text₀) :
    (chore.program T H U ds m).Holds (siteSetting T H U S m m₀ t₀ t) (fun out s' => out = some (.ok ()) →
      ∃ N, Manifest.fromTomlStr T U s'.text = .ok N ∧
        List.Forall₂ (Pinned H S m s'.bucket) m₀.artifacts N.artifacts) s := by
  cases chore with
  | mirror =>
    obtain rfl := hmirror rfl
    rw [← htext rfl] at hread
    refine Program.Holds.bind ((mirrorManifest_holds hT hC hS hsize hread).mono fun out s₁ hout s₂ hs₂ h => ?_)
    cases h
    obtain ⟨N,hN,hall⟩ := hout rfl
    exact ⟨N,(congrArg _ (hs₂.text rfl)).trans hN,hall.imp fun _ _ h => h.kept hs₂.grows⟩
  | operations ops =>
    have hasks : (runAll H U ops).Asks (shelfSetting H S m₀.Lists t) (fun _ _ => True) (fun _ _ => True)
        s.world :=
      runAll_shelf (fun _ _ _ => trivial) hS m₀.onePerKey ops hchore
    refine Program.Holds.bind ((onStore_holds (A := fun _ => True) (shelf_promises hS hasks
      ((runAll_holds ops).mono fun _ _ _ => trivial)).holds (fun _ _ _ _ => trivial) (fun _ _ _ => trivial) trivial).mono
      fun _ s₁ _ s₂ _ h => by cases h)
  | put key p =>
    have hput : (m.put H U key p.blob p.info).run.Holds (racing H (m.path key) (fun _ => False) True t)
        (Uploaded (m.path key) True t p.info s.bucket) s.bucket := put_holds p.bound (.refl _ _)
    refine Program.Holds.bind ((onS3_holds (A := fun _ => True) hput put_gentle (fun _ _ _ _ => trivial)
      (fun _ _ _ _ => trivial) trivial).mono fun _ s₁ _ s₂ _ h => by cases h)

/-- The rely and guarantee of the threads. -/
def mirroringDiscipline (hT : T.RoundTrips) (hC : T.Complete) (hS : Set.InjOn H.hex S)
    (hsize : ∀ body ∈ S, body.length < 2^64) (hread : Manifest.fromTomlStr T U text₀ = .ok m₀)
    (hmirror : ∀ t, chore t = .mirror → t = t₀) (hchore : ∀ t, (chore t).Within m₀.Lists) :
    (mirroring T H U S ds m chore).Discipline where
  inv := Sane T H U S m m₀
  rely := Around H S m₀ t₀
  guar := Upkeep T H U S m m₀ t₀
  pre t s := t = t₀ → s.text = text₀
  post _ _ out s := out = some (.ok ()) → ∃ N, Manifest.fromTomlStr T U s.text = .ok N ∧
    List.Forall₂ (Pinned H S m s.bucket) m₀.artifacts N.artifacts
  rely_refl t := (siteSetting T H U S m m₀ t₀ t).rely_refl
  rely_trans t := (siteSetting T H U S m m₀ t₀ t).rely_trans
  guar_inv h := h.sane
  guar_rely := by
    intro t u s s' htu _ h
    refine ⟨?_,fun path => ⟨(h.bucket path).later,fun id up hu ho => (h.bucket path).uploads id up hu ?_,
      fun _ v hv => h.grows path v hv⟩,fun hu => h.text (by rintro rfl; exact htu hu.symm)⟩
    · rcases h.world with hw | ⟨⟨hv,c,r,hstep⟩,hpromise⟩
      · rw [hw]
        exact (shelfSetting H S m₀.Lists u).rely_refl _
      · exact ⟨hpromise.frame u htu.symm,hv,fun h => ⟨hpromise.consistent h.consistent,hstep.2.2⟩⟩
    · rintro rfl
      exact htu ho
  kill_inv := by
    rintro t s s' rfl h
    exact ⟨h.known.released,h.truthful,h.file⟩
  kill_rely := by
    rintro t u s s' htu - rfl
    exact ⟨⟨.release htu.symm,.of_index rfl,fun h => h.released⟩,fun _ => .refl _,fun _ => rfl⟩
  pre_stable hs h ht := (hs.text ht).trans (h ht)
  launch_holds := by
    rintro t s p rfl htext
    exact chore_holds hT hC hS hsize hread (hmirror t) (hchore t) htext

/-- At every moment of a mirror run, whoever else works on the cache root and the bucket, the manifest file
has the artifacts that it had at first, and each is as it was or pinned to an object of the mirror whose
content it asks for; when the run returns, all are, and the service accepts their objects. -/
theorem mirror_pins (hT : T.RoundTrips) (hC : T.Complete) (hS : Set.InjOn H.hex S)
    (hsize : ∀ body ∈ S, body.length < 2^64) (hread : Manifest.fromTomlStr T U s.text = .ok m₀)
    (hmirror : ∀ t, chore t = .mirror → t = t₀) (hchore : ∀ t, (chore t).Within m₀.Lists)
    (hknown : Known H S s.world) (hnew : ∀ path, ∀ v ∈ s.bucket.written path, v.writer = none)
    {c : Config ThreadId AdminCall AdminCall.Ret Site (Option (Except DatastoreError Unit))}
    (hr : (mirroring T H U S ds m chore).Reaches (System.init s) c) :
    (∃ M, Manifest.fromTomlStr T U c.state.text = .ok M ∧
      List.Forall₂ (Advanced H S m c.state.bucket) m₀.artifacts M.artifacts) ∧
    ∀ t s₀, c.thread t = .finished s₀ (some (.ok ())) → ∃ M, Manifest.fromTomlStr T U c.state.text = .ok M ∧
      List.Forall₂ (fun a a' => Pinned H S m c.state.bucket a a' ∧ Accepted m c.state.bucket a') m₀.artifacts
        M.artifacts := by
  have hsane : Sane T H U S m m₀ s := by
    refine ⟨hknown,fun path v hv hw => ?_,m₀,hread,List.forall₂_same.mpr fun a _ => .inl (.refl a)⟩
    rw [hnew path v hv] at hw
    cases hw
  let d : (mirroring T H U S ds m chore).Discipline :=
    mirroringDiscipline hT hC hS hsize hread hmirror hchore
  have hsound := d.sound_of_reaches (d.sound_init hsane fun _ _ => rfl) hr
  refine ⟨hsound.inv.file,fun t s₀ ht => ?_⟩
  have hgood := hsound.good t
  rw [ht] at hgood
  obtain ⟨M,hM,hall⟩ := hgood _ (d.rely_refl t _) rfl
  refine ⟨M,hM,hall.imp fun a a' h => ⟨h,?_⟩⟩
  obtain ⟨digest,-,hmirrored,-⟩ := h.check
  exact hmirrored.accepted

/-- The sample artifact as the manifest has it at first. -/
def Artifact.unpublished : Artifact := { Artifact.redistributable with check := .none }

/-- The sample artifact as it is published, with its pin. -/
def Artifact.published : Artifact :=
  { Artifact.redistributable with check := .all [.sha256 (Sha256.sample.hex [0x61,0x62,0x63]),.none] }

theorem runs_except {ε α C S : Type} {R : C → Type} {step : (c : C) → S → R c → S → Prop} {s : S}
    {x : Except ε α} {a : α} (h : x = .ok a) :
    (liftM x : ExceptT ε (Program C R) α).run.Runs step s [] (.ok a) s := by
  rw [h]
  exact .done _ _

/-- Taking a free lock and letting it go again changes nothing. -/
theorem unlocked_free {w : World} {name : String} (hfree : w.locks name = none) :
    (if (w.setLock name (some t)).locks name = some t then (w.setLock name (some t)).setLock name none
      else w.setLock name (some t)) = w := by
  have hheld : (w.setLock name (some t)).locks name = some t := Function.update_self _ _ _
  rw [if_pos hheld,setLock_free hfree]

/-- The metadata of its upload. -/
def MirrorObject.published : MirrorObject := ⟨Sha256.sample.hex [0x61,0x62,0x63],3,none,none,none,0⟩

/-- The artifact in the cache and in the manifest file, without a pin, and an empty bucket. -/
def Site.unpublished : Site := ⟨.cached,.empty,Manifest.sampleText none "public-domain"⟩

/-- The request that puts the object into the empty bucket, which is the last of the upload. -/
theorem putObject_published (metadata : UserMetadata) (body : Bytes)
    (next : Except ServiceFailure Unit → Program S3Call S3Call.Ret (Except DatastoreError PutOutcome))
    (hnext : next (.ok ()) = .done (.ok .stored)) :
    ((Program.call (.putObject "abc" metadata body .ifNoneMatch) next).embed Admin.inS3).Runs
      (fun c s r s' => c.Does 0 s r s' ∧ s'.world.contents ⊆ {[0x61,0x62,0x63]}) .unpublished
      [⟨.s3 (.putObject "abc" metadata body .ifNoneMatch),Except.ok ()⟩] (.ok .stored)
      { Site.unpublished with bucket := Bucket.empty.store "abc" ⟨body,metadata,"e",some 0⟩ } := by
  have hdoes : S3Call.Does 0 (.putObject "abc" metadata body .ifNoneMatch) .empty (.ok ())
      (Bucket.empty.store "abc" ⟨body,metadata,"e",some 0⟩) :=
    .put rfl (fun _ _ h => by cases h) (fun _ h => by cases h)
  refine .call ⟨⟨_,hdoes,rfl⟩,contents_cached _⟩ ?_
  change (Program.embed Admin.inS3 (next (.ok ()))).Runs _ _ _ _ _
  rw [hnext]
  exact .done _ _

theorem put_published : ∃ events b, (onS3 (S3Mirror.put .sample (twoHosts "a.com" "b.org") ⟨"bucket",""⟩
    Artifact.unpublished.key [0x61,0x62,0x63] .published)).run.Runs
      (fun c s r s' => c.Does 0 s r s' ∧ s'.world.contents ⊆ {[0x61,0x62,0x63]}) .unpublished events (.ok .stored)
      { Site.unpublished with bucket := b } := by
  have hc := contents_cached
  have hfile : S3Call.Does 0 .file .empty (.ok ()) .empty := .file
  have hfails : (⟨some 404,none⟩ : ServiceFailure).Honest none none :=
    ⟨fun _ _ => rfl,fun _ h => by cases h⟩
  exact ⟨_,_,.call ⟨⟨_,hfile,rfl⟩,hc _⟩ (.call ⟨⟨_,hfile,rfl⟩,hc _⟩ (.call ⟨⟨_,.headFails hfails,rfl⟩,hc _⟩
    (.call ⟨⟨_,hfile,rfl⟩,hc _⟩ (putObject_published _ _ _ rfl))))⟩

/-- A manifest is written over another one, whatever the bucket holds. -/
theorem atomicManifest_cached {M : Manifest} {b : Bucket} {text text' : String}
    (hwrite : M.toTomlString T (twoHosts "a.com" "b.org") = .ok text') :
    ∃ events, (atomicManifest T (twoHosts "a.com" "b.org") M).run.Runs
      (fun c s r s' => c.Does 0 s r s' ∧ s'.world.contents ⊆ {[0x61,0x62,0x63]}) ⟨.cached,b,text⟩ events
      (.ok ()) ⟨.cached,b,text'⟩ := by
  have hc := contents_cached
  have hcreated : (onManifest .createTemp).run.Runs
      (fun c s r s' => c.Does 0 s r s' ∧ s'.world.contents ⊆ {[0x61,0x62,0x63]}) ⟨.cached,b,text⟩
      [⟨.manifest .createTemp,Except.ok ()⟩] (.ok ()) ⟨.cached,b,text⟩ :=
    .call ⟨⟨_,.createTemp,rfl⟩,hc _⟩ (.done _ _)
  exact ⟨_,.bind_run hcreated (.bind_run (runs_except hwrite) (.call ⟨⟨_,.writeTemp,rfl⟩,hc _⟩
    (.call ⟨⟨_,.syncTemp,rfl⟩,hc _⟩ (.call ⟨⟨_,.persist,rfl⟩,hc _⟩ (.call ⟨⟨_,.syncParent,rfl⟩,hc _⟩
      (.done _ _))))))⟩

/-- The artifact is in the cache, and not yet in the bucket; then it is in both, and pinned. -/
theorem mirrorArtifact_cached {text : String} (hwrite : Manifest.toTomlString T (twoHosts "a.com" "b.org")
      ⟨[.published]⟩ = .ok text) :
    let ds : Datastore := ⟨⟨"/cache"⟩,none,⟨none⟩,true,false,none⟩
    ∃ events s', (mirrorArtifact T .sample (twoHosts "a.com" "b.org") ds ⟨"bucket",""⟩ ⟨[.unpublished]⟩
      .unpublished).run.Runs (fun c s r s' => c.Does 0 s r s' ∧ s'.world.contents ⊆ {[0x61,0x62,0x63]})
        .unpublished events (.ok ⟨[.published]⟩) s' := by
  intro ds
  let step : (c : AdminCall) → Site → c.Ret → Site → Prop :=
    fun c s r s' => c.Does 0 s r s' ∧ s'.world.contents ⊆ {[0x61,0x62,0x63]}
  have hc := contents_cached
  have hlicense : ¬ Artifact.unpublished.provenance.license.toList.all isWhitespace = true := by decide
  have hpin : Manifest.pinSha256 ⟨[.unpublished]⟩ Artifact.unpublished.key (Sha256.sample.hex [0x61,0x62,0x63]) =
      .ok ⟨[.published]⟩ := Manifest.pinSha256_unpinned "public-domain"
  have hget : ∃ events s', (onStore (ds.get .sample (twoHosts "a.com" "b.org") .unpublished)).run.Runs step
      .unpublished events (.ok (blobPath (Sha256.sample.hex [0x61,0x62,0x63]))) s' ∧ s' = .unpublished :=
    ⟨_,_,.call ⟨⟨_,.inl ⟨(),rfl⟩,rfl⟩,hc _⟩ (.call ⟨⟨_,.inl ⟨(),rfl⟩,rfl⟩,hc _⟩ (.call ⟨⟨_,.inl ⟨(),rfl⟩,rfl⟩,hc _⟩
      (.call ⟨⟨_,.inl ⟨(),rfl⟩,rfl⟩,hc _⟩ (.call ⟨⟨_,.inl ⟨(),rfl⟩,rfl⟩,hc _⟩ (.call ⟨⟨_,.inl ⟨(),rfl⟩,rfl⟩,hc _⟩
        (.call ⟨⟨_,.inl ⟨(),rfl⟩,rfl⟩,hc _⟩ (.done _ _))))))),
      congrArg (fun w => Site.mk w _ _) (unlocked_free rfl)⟩
  have hmeta : ∃ events, (onStore (metadata ds Artifact.unpublished.key)).run.Runs step .unpublished events
      (.ok .published) .unpublished :=
    ⟨_,.call ⟨⟨_,.inl ⟨(),rfl⟩,rfl⟩,hc _⟩ (.call ⟨⟨_,.inl ⟨(),rfl⟩,rfl⟩,hc _⟩ (.done _ _))⟩
  have hread : ∃ events, (onStore (io (.readBlob (Sha256.sample.hex [0x61,0x62,0x63])))).run.Runs step
      .unpublished events (.ok [0x61,0x62,0x63]) .unpublished :=
    ⟨_,.call ⟨⟨_,.inl ⟨(),rfl⟩,rfl⟩,hc _⟩ (.done _ _)⟩
  obtain ⟨_,_,hget,rfl⟩ := hget
  obtain ⟨_,hmeta⟩ := hmeta
  obtain ⟨_,hread⟩ := hread
  obtain ⟨_,b,hput⟩ := put_published
  obtain ⟨_,hwritten⟩ := atomicManifest_cached (b := b) hwrite
  rw [mirrorArtifact,if_neg hlicense]
  exact ⟨_,_,.bind_run hget (.bind_run hmeta (.bind_run hread (.bind_run hput (.bind_run (runs_except hpin)
    (.bind_run hwritten (.done _ _))))))⟩

/-- A manifest of one artifact, mirrored to the end. -/
theorem mirror_pins_published :
    let T := Manifest.sampleToml "public-domain"
    let ds : Datastore := ⟨⟨"/cache"⟩,none,⟨none⟩,true,false,none⟩
    ∃ c s₀, (mirroring T .sample (twoHosts "a.com" "b.org") {[0x61,0x62,0x63]} ds ⟨"bucket",""⟩ fun t =>
        if t = 0 then .mirror else .operations []).Reaches (System.init .unpublished) c ∧
      c.thread 0 = .finished s₀ (some (.ok ())) ∧
      ∃ M, Manifest.fromTomlStr T (twoHosts "a.com" "b.org") c.state.text = .ok M ∧
        List.Forall₂ (Pinned .sample {[0x61,0x62,0x63]} ⟨"bucket",""⟩ c.state.bucket) [.unpublished] M.artifacts := by
  intro T ds
  obtain ⟨hT,hC,hread,hwrite⟩ := Manifest.sampleToml_spec "public-domain"
  have hc := contents_cached
  let step : (c : AdminCall) → Site → c.Ret → Site → Prop :=
    fun c s r s' => c.Does 0 s r s' ∧ s'.world.contents ⊆ {[0x61,0x62,0x63]}
  have hruns : ∃ events s', (Chore.mirror.program T .sample (twoHosts "a.com" "b.org") ds ⟨"bucket",""⟩).Runs step
      .unpublished events (some (.ok ())) s' := by
    obtain ⟨_,s',hone⟩ := mirrorArtifact_cached hwrite
    have hlock : (onManifest .lock).run.Runs step .unpublished
        [⟨.manifest .lock,Except.ok ()⟩] (.ok ()) .unpublished :=
      .call ⟨⟨_,.lock,rfl⟩,hc _⟩ (.done _ _)
    have htext : (onManifest .read).run.Runs step .unpublished
        [⟨.manifest .read,Except.ok (Manifest.sampleText none "public-domain")⟩]
        (.ok (Manifest.sampleText none "public-domain")) .unpublished :=
      .call ⟨⟨_,.read,rfl⟩,hc _⟩ (.done _ _)
    exact ⟨_,s',.bind (.bind_run hlock (.bind_run htext (.bind_run (runs_except hread)
      (.bind_run hone (.done _ _))))) (.done _ _)⟩
  obtain ⟨events,s',hruns⟩ := hruns
  have hreach : (mirroring T .sample (twoHosts "a.com" "b.org") {[0x61,0x62,0x63]} ds ⟨"bucket",""⟩ fun t =>
      if t = 0 then .mirror else .operations []).Reaches (System.init .unpublished) _ :=
    .tail (.head (.launch (t := 0) rfl rfl) (System.reaches_of_runs rfl hruns)) (.finish (t := 0) rfl)
  have hmirror : ∀ t : ThreadId, (if t = 0 then Chore.mirror else .operations []) = .mirror → t = 0 := by
    intro t h
    by_contra hne
    rw [if_neg hne] at h
    cases h
  have hchore : ∀ t : ThreadId, (if t = 0 then Chore.mirror else .operations []).Within
      (Manifest.Lists ⟨[.unpublished]⟩) := by
    intro t
    split
    · trivial
    · exact fun op h => absurd h List.not_mem_nil
  have hsize : ∀ body ∈ ({[0x61,0x62,0x63]} : Set Bytes), body.length < 2^64 := by
    rintro body rfl
    decide
  have hknown : Known .sample {[0x61,0x62,0x63]} .cached := ⟨consistent_cached,hc _⟩
  obtain ⟨M,hM,hall⟩ := (mirror_pins (s := .unpublished) hT hC (Set.injOn_singleton _ _) hsize
    hread hmirror hchore hknown (fun _ _ h => by cases h) hreach).2 0 _ rfl
  exact ⟨_,_,hreach,rfl,M,hM,hall.imp fun _ _ h => h.1⟩

end mirroring
end StarfieldDatastore
