import StarfieldDatastore.S3
import StarfieldDatastore.Interleaving.Pool

/-! Conditional writes to one key by any number of callers: what a put can find, what a
replacement can displace, and what every stored object says of itself. -/
namespace StarfieldDatastore
open Interleaving

theorem parseU64_toString {n : ℕ} (h : n < 2^64) : parseU64 (toString n) = some n := by
  have hdigits : (toString n).toList = Nat.toDigits 10 n := by
    simp only [Nat.toString_eq_repr,Nat.toList_repr]
  have hplus : (Nat.toDigits 10 n).head? ≠ some '+' := by
    intro hp
    have := Nat.isDigit_of_mem_toDigits (by decide) (by decide) (List.mem_of_mem_head? hp)
    exact absurd this (by decide)
  have hne : (Nat.toDigits 10 n).isEmpty = false := by simp [Nat.toDigits_ne_nil]
  have hall : (Nat.toDigits 10 n).all Char.isDigit = true :=
    List.all_eq_true.mpr fun c hc => Nat.isDigit_of_mem_toDigits (by decide) (by decide) hc
  simp only [parseU64,hdigits,if_neg hplus,hne,hall,Bool.not_true,Bool.or_self,Bool.false_eq_true,if_false,
    Nat.ofDigitChars_ten_toDigits,if_pos h]

/-- The metadata of a version gives digest and length of its own body. -/
structure Version.Truthful (H : Sha256) (v : Version) : Prop where
  digest : v.metadata.lookup "sha256" = some (H.hex v.body)
  size : v.metadata.lookup "bytes" = some (toString v.body.length)

/-- The version has this digest as metadata, and this size as metadata and as length. -/
structure Version.Carries (v : Version) (info : MirrorObject) : Prop where
  digest : v.metadata.lookup "sha256" = some info.sha256
  size : (v.metadata.lookup "bytes").bind parseU64 = some info.bytes
  length : v.body.length = info.bytes

theorem mirrorObject_carries {v : Version} {info : MirrorObject} (h : mirrorObject v.head = .ok info) :
    v.Carries info := by
  have hlen : (v.head.contentLength.bind u64TryFrom) = some v.body.length := rfl
  simp only [mirrorObject,hlen] at h
  cases hdigest : (v.head.metadata.getD ∅).lookup "sha256" with
  | none =>
    rw [hdigest] at h
    cases h
  | some digest =>
    simp only [hdigest,validateMetadataDigest] at h
    by_cases hd : isDigest digest = true
    · rw [if_pos hd] at h
      by_cases hsize : ((v.head.metadata.getD ∅).lookup "bytes").bind parseU64 = some v.body.length
      · rw [if_neg (not_not.mpr hsize)] at h
        cases h
        exact ⟨hdigest,hsize,rfl⟩
      · rw [if_pos hsize] at h
        cases h
    · rw [if_neg hd] at h
      cases h

/-- The metadata of an upload so far gives digest and size. -/
def Proposes (info : MirrorObject) (values : UserMetadata) : Prop :=
  values.lookup "sha256" = some info.sha256 ∧ values.lookup "bytes" = some (toString info.bytes)

theorem Proposes.insert {info : MirrorObject} {values : UserMetadata} {name : String} (text : String)
    (h : Proposes info values) (hsha : "sha256" ≠ name) (hbytes : "bytes" ≠ name) :
    Proposes info (values.insert name text) := by
  refine ⟨?_,?_⟩
  · rw [AList.lookup_insert_ne hsha]
    exact h.1
  · rw [AList.lookup_insert_ne hbytes]
    exact h.2

theorem sourceMetadata_proposes {U : UrlCrate} {info : MirrorObject} {values metadata : UserMetadata}
    {source : Option String} (hv : Proposes info values) (h : sourceMetadata U values source = .ok metadata) :
    Proposes info metadata := by
  cases source with
  | none =>
    cases h
    exact hv
  | some source =>
    simp only [sourceMetadata] at h
    split at h
    · cases h
    · split at h
      · cases h
      · split at h
        · cases h
          exact hv.insert _ (by decide) (by decide)
        · cases h
          exact hv

theorem uploadMetadata_proposes {U : UrlCrate} {info : MirrorObject} {metadata : UserMetadata}
    (h : uploadMetadata U info = .ok metadata) : Proposes info metadata := by
  have hbase : Proposes info (((AList.insert "fetched-at" (toString info.fetchedAt) ∅).insert
      "bytes" (toString info.bytes)).insert "sha256" info.sha256) := by
    refine ⟨AList.lookup_insert _,?_⟩
    rw [AList.lookup_insert_ne (by decide),AList.lookup_insert]
  simp only [uploadMetadata] at h
  cases hsource : sourceMetadata U (((AList.insert "fetched-at" (toString info.fetchedAt) ∅).insert
      "bytes" (toString info.bytes)).insert "sha256" info.sha256) info.source with
  | error e =>
    rw [hsource] at h
    cases h
  | ok values =>
    have hvalues := sourceMetadata_proposes hbase hsource
    cases hid : info.providerIdentity with
    | none =>
      rw [hsource,hid] at h
      cases h
      exact hvalues
    | some identity =>
      rw [hsource,hid] at h
      cases h
      exact hvalues.insert _ (by decide) (by decide)

/-- What is stored under the path later on was there before or has been written since. -/
def Later (path : String) (b b' : Bucket) : Prop :=
  ∃ new, b'.written path = new++b.written path ∧
    ∀ v, b'.object path = some v → b.object path = some v ∨ v ∈ new

/-- The version was the object under the path at some moment from `b` to `b'`. -/
def Held (path : String) (b b' : Bucket) (v : Version) : Prop :=
  ∃ new, b'.written path = new++b.written path ∧ (b.object path = some v ∨ v ∈ new)

section history
variable {path : String} {b b' b'' : Bucket} {v : Version}

theorem Later.of_eq (ho : b'.object = b.object) (hw : b'.written = b.written) : Later path b b' :=
  ⟨[],by rw [hw]; rfl,fun v hv => .inl (ho ▸ hv)⟩

theorem Later.refl (path : String) (b : Bucket) : Later path b b := .of_eq rfl rfl

theorem Later.trans (h : Later path b b') (h' : Later path b' b'') : Later path b b'' := by
  obtain ⟨new,hw,ho⟩ := h
  obtain ⟨newer,hw',ho'⟩ := h'
  refine ⟨newer++new,by rw [hw',hw,List.append_assoc],fun v hv => ?_⟩
  rcases ho' v hv with hv | hv
  · rcases ho v hv with hv | hv
    · exact .inl hv
    · exact .inr (List.mem_append_right _ hv)
  · exact .inr (List.mem_append_left _ hv)

theorem Later.held (h : Later path b b') (hv : b'.object path = some v) : Held path b b' v := by
  obtain ⟨new,hw,ho⟩ := h
  exact ⟨new,hw,ho v hv⟩

theorem Held.later (h : Held path b b' v) (h' : Later path b' b'') : Held path b b'' v := by
  obtain ⟨new,hw,hv⟩ := h
  obtain ⟨newer,hw',-⟩ := h'
  refine ⟨newer++new,by rw [hw',hw,List.append_assoc],?_⟩
  rcases hv with hv | hv
  · exact .inl hv
  · exact .inr (List.mem_append_right _ hv)

theorem Later.store (path' : String) (v : Version) : Later path b (b.store path' v) := by
  by_cases h : path = path'
  · subst h
    refine ⟨[v],by simp [Bucket.store],fun v' hv => .inr ?_⟩
    simpa [Bucket.store,eq_comm] using hv
  · refine ⟨[],by simp [Bucket.store,h],fun v' hv => .inl ?_⟩
    simpa [Bucket.store,h] using hv

end history

/-- Every version that a caller has written is truthful. -/
def AllTruthful (H : Sha256) (b : Bucket) : Prop :=
  ∀ path, ∀ v ∈ b.written path, v.writer.isSome → v.Truthful H

/-- A call that can change what is stored. -/
def S3Call.writes : S3Call → Bool
  | .putObject _ _ _ _ => true
  | .completeUpload _ _ _ _ => true
  | .deleteObject _ => true
  | _ => false

/-- What caller `t` may do to a bucket, when `may` says which versions it may displace. -/
structure Caller (H : Sha256) (path : String) (may : Version → Prop) (t : ThreadId) (b b' : Bucket) :
    Prop where
  later : Later path b b'
  uploads : ∀ id u, b.uploads.lookup id = some u → u.owner ≠ t → b'.uploads.lookup id = some u
  keeps : ∀ v, b.object path = some v → b'.object path = some v ∨ may v
  truthful : AllTruthful H b → AllTruthful H b'

/-- What the others do meanwhile; `frozen` says that nobody displaces anything. -/
structure Others (path : String) (frozen : Prop) (t : ThreadId) (b b' : Bucket) : Prop where
  later : Later path b b'
  uploads : ∀ id u, b.uploads.lookup id = some u → u.owner = t → b'.uploads.lookup id = some u
  keeps : frozen → ∀ v, b.object path = some v → b'.object path = some v

theorem Others.refl {path : String} {frozen : Prop} {t : ThreadId} (b : Bucket) : Others path frozen t b b :=
  ⟨.refl path b,fun _ _ h _ => h,fun _ _ h => h⟩

theorem Others.trans {path : String} {frozen : Prop} {t : ThreadId} {b b' b'' : Bucket}
    (h : Others path frozen t b b') (h' : Others path frozen t b' b'') : Others path frozen t b b'' :=
  ⟨h.later.trans h'.later,fun id u hu ho => h'.uploads id u (h.uploads id u hu ho) ho,
    fun hf v hv => h'.keeps hf v (h.keeps hf v hv)⟩

/-- One caller among others. -/
def racing (H : Sha256) (path : String) (may : Version → Prop) (frozen : Prop) (t : ThreadId) :
    Setting S3Call S3Call.Ret Bucket where
  step c b r b' := AllTruthful H b ∧ S3Call.Does t c b r b'
  rely := Others path frozen t
  guar := Caller H path may t
  rely_refl := .refl
  rely_trans := .trans

section steps
variable {H : Sha256} {path : String} {may : Version → Prop} {frozen : Prop} {t : ThreadId}
  {b b' : Bucket}

theorem Caller.of_eq (ho : b'.object = b.object) (hw : b'.written = b.written)
    (hu : ∀ id u, b.uploads.lookup id = some u → u.owner ≠ t → b'.uploads.lookup id = some u) :
    Caller H path may t b b' :=
  ⟨.of_eq ho hw,hu,fun _ hv => .inl (ho ▸ hv),fun h path v hv => h path v (hw ▸ hv)⟩

theorem Caller.refl : Caller H path may t b b := .of_eq rfl rfl fun _ _ h _ => h

/-- Writing a truthful version where nothing is displaced that may not be. -/
theorem Caller.store {v : Version} (hv : v.Truthful H) (hmay : ∀ old, b.object path = some old → may old) :
    Caller H path may t b (b.store path v) := by
  refine ⟨.store path v,fun _ _ h _ => h,fun old hold => .inr (hmay old hold),fun h path' v' hv' => ?_⟩
  by_cases hp : path' = path
  · subst hp
    simp only [Bucket.store,Function.update_self,List.mem_cons] at hv'
    rcases hv' with rfl | hv'
    · exact fun _ => hv
    · exact h path' v' hv'
  · simp only [Bucket.store,Function.update_of_ne hp] at hv'
    exact h path' v' hv'

theorem Caller.quiet {c : S3Call} {r : c.Ret} (hc : c.writes = false) (h : S3Call.Does t c b r b') :
    Caller H path may t b b' := by
  cases h with
  | create fresh answer =>
    refine .of_eq rfl rfl fun id u hu _ => ?_
    rw [AList.lookup_insert_ne]
    · exact hu
    · rintro rfl
      rw [fresh] at hu
      cases hu
  | part found own same =>
    refine .of_eq rfl rfl fun id u hu ho => ?_
    rw [AList.lookup_insert_ne]
    · exact hu
    · rintro rfl
      rw [found] at hu
      cases hu
      exact ho own
  | abort found own =>
    refine .of_eq rfl rfl fun id u hu ho => ?_
    rw [AList.lookup_erase_ne]
    · exact hu
    · rintro rfl
      rw [found] at hu
      cases hu
      exact ho own
  | put => cases hc
  | complete => cases hc
  | delete => cases hc
  | _ => exact .refl

end steps

/-- What is known once a proposal has been published: an object carrying it was there. -/
def Uploaded (path : String) (frozen : Prop) (t : ThreadId) (info : MirrorObject) (b₀ : Bucket)
    (r : Except DatastoreError PutOutcome) (b : Bucket) : Prop :=
  Later path b₀ b ∧ ∀ out, r = .ok out → ∃ v, Held path b₀ b v ∧ v.Carries info ∧
    (frozen → b.object path = some v) ∧ (out = .stored → v.writer = some t)

section programs
variable {H : Sha256} {U : UrlCrate} {m : S3Mirror} {key : ArtifactKey} {may : Version → Prop}
  {frozen : Prop} {t : ThreadId} {b b' b₀ : Bucket} {info : MirrorObject} {blob : Bytes} {α : Type}

theorem Uploaded.stable {path : String} {r : Except DatastoreError PutOutcome}
    (h : Uploaded path frozen t info b₀ r b) (hb : Others path frozen t b b') :
    Uploaded path frozen t info b₀ r b' := by
  refine ⟨h.1.trans hb.later,fun out hr => ?_⟩
  obtain ⟨v,hheld,hv,hkeep,hout⟩ := h.2 out hr
  exact ⟨v,hheld.later hb.later,hv,fun hf => hb.keeps hf v (hkeep hf),hout⟩

theorem Uploaded.error {path : String} {e : DatastoreError} (h : Later path b₀ b) :
    Uploaded path frozen t info b₀ (.error e) b := ⟨h,fun _ hr => by cases hr⟩

/-- A request and what follows its answer. -/
theorem holds_s3 {E : Setting S3Call S3Call.Ret Bucket} {c : S3Call} {f : c.Ret → S3Op α}
    {Q : Except DatastoreError α → Bucket → Prop}
    (h : ∀ b', E.rely b b' → ∀ r b₂, E.step c b' r b₂ → E.guar b' b₂ ∧ (f r).run.Holds E Q b₂) :
    (liftM (s3 c) >>= f : S3Op α).run.Holds E Q b := h

/-- A failed operation has published nothing. -/
theorem holds_error {path : String} {e : DatastoreError} (h : Later path b₀ b) :
    (throw e : S3Op PutOutcome).run.Holds (racing H path may frozen t) (Uploaded path frozen t info b₀) b :=
  fun _ hb => .error (h.trans hb.later)

/-- What a HEAD request finds is the object of that moment. -/
theorem head_holds (h : Later (m.path key) b₀ b) :
    (m.head key).run.Holds (racing H (m.path key) may frozen t) (fun r b' => Later (m.path key) b₀ b' ∧
      ∀ found, r = .ok (some found) → ∃ v, Held (m.path key) b₀ b' v ∧ v.Carries found ∧
        (frozen → b'.object (m.path key) = some v)) b := by
  refine Program.Holds.perform_bind fun b' hb r b₂ hstep => ⟨.quiet rfl hstep.2,?_⟩
  have hlater := h.trans hb.later
  obtain ⟨-,hstep⟩ := hstep
  cases hstep with
  | head found =>
    rename_i v
    intro b₃ hb'
    refine ⟨hlater.trans hb'.later,fun found' hr => ?_⟩
    have hok : mirrorObject v.head = .ok found' := by
      cases hm : mirrorObject v.head with
      | error e =>
        rw [hm] at hr
        cases hr
      | ok x =>
        rw [hm] at hr
        cases hr
        rfl
    exact ⟨v,(hlater.held found).later hb'.later,mirrorObject_carries hok,fun hf => hb'.keeps hf v found⟩
  | headFails =>
    intro b₃ hb'
    refine ⟨hlater.trans hb'.later,fun found hr => ?_⟩
    split at hr <;> cases hr

theorem matchingExisting_uploaded {existing : MirrorObject} {v : Version}
    (h : Later (m.path key) b₀ b) (hv : v.Carries existing) (hheld : Held (m.path key) b₀ b v)
    (hkeep : frozen → b.object (m.path key) = some v) :
    Uploaded (m.path key) frozen t info b₀ (matchingExisting existing info) b := by
  refine ⟨h,fun out hr => ?_⟩
  simp only [matchingExisting] at hr
  split at hr
  · rename_i heq
    cases hr
    exact ⟨v,hheld,⟨heq.1 ▸ hv.digest,heq.2 ▸ hv.size,heq.2 ▸ hv.length⟩,hkeep,fun hs => by cases hs⟩
  · cases hr

theorem existingAfterRace_holds (h : Later (m.path key) b₀ b) :
    (m.existingAfterRace key info).run.Holds (racing H (m.path key) may frozen t)
      (Uploaded (m.path key) frozen t info b₀) b := by
  refine Program.Holds.bind_run ((head_holds h).mono ?_)
  rintro r b' ⟨hlater,hfound⟩
  obtain e | found := r
  · exact .error hlater
  cases found with
  | none => exact holds_error hlater
  | some existing =>
    obtain ⟨v,hheld,hv,hkeep⟩ := hfound existing rfl
    exact fun b₂ hb => (matchingExisting_uploaded hlater hv hheld hkeep).stable hb

/-- The local file is what the proposal says, whose size is a `u64`. -/
structure Fit (H : Sha256) (blob : Bytes) (info : MirrorObject) : Prop where
  digest : H.hex blob = info.sha256
  size : blob.length = info.bytes
  bound : info.bytes < 2^64

/-- The version that caller `t` writes for a proposal. -/
structure Proposed (H : Sha256) (info : MirrorObject) (t : ThreadId) (v : Version) : Prop where
  proposes : Proposes info v.metadata
  fit : Fit H v.body info
  writer : v.writer = some t

theorem Proposed.truthful {v : Version} (h : Proposed H info t v) : v.Truthful H :=
  ⟨by rw [h.proposes.1,h.fit.digest],by rw [h.proposes.2,h.fit.size]⟩

theorem Proposed.carries {v : Version} (h : Proposed H info t v) : v.Carries info :=
  ⟨h.proposes.1,by rw [h.proposes.2]; exact parseU64_toString h.fit.bound,h.fit.size⟩

/-- A write that was carried out is within the caller's guarantee and publishes. -/
theorem stored_uploaded {path : String} {v : Version} {cond : Condition} (h : Later path b₀ b)
    (hv : Proposed H info t v) (hmet : cond.Met (b.object path))
    (hmay : ∀ old, cond = .ifMatch old.etag → may old) (ho : b'.object = (b.store path v).object)
    (hw : b'.written = (b.store path v).written)
    (hu : ∀ id u, b.uploads.lookup id = some u → u.owner ≠ t → b'.uploads.lookup id = some u) :
    Caller H path may t b b' ∧ Uploaded path frozen t info b₀ (.ok .stored) b' := by
  have hnow : b'.object path = some v := by rw [ho]; exact Function.update_self _ _ _
  have hlater : Later path b b' := by
    obtain ⟨new,hnew,hobj⟩ : Later path b (b.store path v) := Later.store path v
    exact ⟨new,by rw [hw,hnew],by rw [ho]; exact hobj⟩
  have hdisplaced : ∀ old, b.object path = some old → may old := by
    intro old hold
    cases cond with
    | ifNoneMatch =>
      rw [hold] at hmet
      cases hmet
    | ifMatch etag =>
      obtain ⟨found,hfound,rfl⟩ := hmet
      rw [hold] at hfound
      cases hfound
      exact hmay old rfl
  have hcaller := Caller.store (t := t) (b := b) hv.truthful hdisplaced
  refine ⟨⟨hlater,hu,fun old hold => .inr (hdisplaced old hold),fun htrue => ?_⟩,h.trans hlater,?_⟩
  · have := hcaller.truthful htrue
    rw [AllTruthful,hw]
    exact this
  · intro out hr
    cases hr
    exact ⟨v,(h.trans hlater).held hnow,hv.carries,fun _ => hnow,fun _ => hv.writer⟩

theorem putRequest_holds {metadata : UserMetadata} {expected : Option String}
    {again : Option (S3Op PutOutcome)} (hfit : Fit H blob info) (hprop : Proposes info metadata)
    (hmay : ∀ old : Version, S3Mirror.condition expected = .ifMatch old.etag → may old)
    (hagain : ∀ op, again = some op → ∀ b, Later (m.path key) b₀ b →
      op.run.Holds (racing H (m.path key) may frozen t) (Uploaded (m.path key) frozen t info b₀) b)
    (h : Later (m.path key) b₀ b) :
    (m.putRequest key blob info metadata expected again).run.Holds (racing H (m.path key) may frozen t)
      (Uploaded (m.path key) frozen t info b₀) b := by
  refine holds_s3 fun b₁ hb r b₂ hstep => ⟨.quiet rfl hstep.2,?_⟩
  have hlater := h.trans hb.later
  obtain ⟨-,hstep⟩ := hstep
  cases hstep
  cases r with
  | error e => exact holds_error hlater
  | ok _ =>
    refine holds_s3 fun b₂ hb r b₃ hstep => ?_
    have hlater := hlater.trans hb.later
    obtain ⟨-,hstep⟩ := hstep
    have hfailed : ∀ f b₃, Later (m.path key) b₀ b₃ →
        (if f.status = some 412 ∧ expected = none then m.existingAfterRace key info
          else if f.status = some 409 then again.getD (throw (m.failure key "PUT" f))
          else throw (m.failure key "PUT" f)).run.Holds (racing H (m.path key) may frozen t)
          (Uploaded (m.path key) frozen t info b₀) b₃ := by
      intro f b₃ hlater
      split
      · exact existingAfterRace_holds hlater
      · split
        · cases hop : again with
          | none => exact holds_error hlater
          | some op => exact hagain op hop b₃ hlater
        · exact holds_error hlater
    cases hstep with
    | put met fresh answer =>
      rename_i etag
      have hv : Proposed H info t ⟨blob,metadata,etag,some t⟩ := ⟨hprop,hfit,rfl⟩
      obtain ⟨hcaller,huploaded⟩ : _ ∧ Uploaded (m.path key) frozen t info b₀ _ _ :=
        stored_uploaded hlater hv met hmay rfl rfl fun _ _ hu _ => hu
      refine ⟨hcaller,?_⟩
      cases r with
      | ok _ => exact fun b₄ hb => huploaded.stable hb
      | error f => exact hfailed f _ huploaded.1
    | putFails => exact ⟨.refl,hfailed _ _ hlater⟩

theorem putObject_holds {metadata : UserMetadata} {expected : Option String} (hfit : Fit H blob info)
    (hprop : Proposes info metadata)
    (hmay : ∀ old : Version, S3Mirror.condition expected = .ifMatch old.etag → may old) (left : ℕ)
    (h : Later (m.path key) b₀ b) :
    (m.putObject key blob info metadata expected left).run.Holds (racing H (m.path key) may frozen t)
      (Uploaded (m.path key) frozen t info b₀) b := by
  induction left generalizing b with
  | zero => exact putRequest_holds hfit hprop hmay (fun _ hop => by cases hop) h
  | succ left ih =>
    refine putRequest_holds hfit hprop hmay (fun op hop b hb => ?_) h
    cases hop
    exact ih hb

end programs
theorem Upload.assemble_append (u : Upload) (before after : List CompletedPart) {head tail : Bytes}
    (hbefore : u.assemble before = some head) (hafter : u.assemble after = some tail) :
    u.assemble (before++after) = some (head++tail) := by
  induction before generalizing head with
  | nil =>
    cases hbefore
    exact hafter
  | cons part rest ih =>
    simp only [assemble,Option.bind_eq_bind,Option.bind_eq_some_iff,Option.pure_def,Option.some.injEq] at hbefore
    obtain ⟨body,hbody,others,hothers,rfl⟩ := hbefore
    simp only [List.cons_append,assemble,hbody,ih hothers,Option.bind_eq_bind,Option.bind_some,
      Option.pure_def,List.append_assoc]

/-- A part under a new number leaves the listed parts as they were. -/
theorem Upload.assemble_insert (u : Upload) {number : ℕ} (body : Bytes) {parts : List CompletedPart}
    (h : ∀ part ∈ parts, part.number ≠ number) :
    Upload.assemble { u with parts := u.parts.insert number body } parts = u.assemble parts := by
  induction parts with
  | nil => rfl
  | cons part rest ih =>
    simp only [assemble,AList.lookup_insert_ne (h part (by simp)),ih fun p hp => h p (by simp [hp])]

/-- Caller `t` has an upload whose listed parts make up what it has sent. -/
structure Sending (path id : String) (t : ThreadId) (metadata : UserMetadata) (parts : List CompletedPart)
    (sent : Bytes) (b : Bucket) : Prop where
  numbers : ∀ part ∈ parts, part.number ≤ parts.length
  upload : ∃ u, b.uploads.lookup id = some u ∧ u.owner = t ∧ u.path = path ∧ u.metadata = metadata ∧
    u.assemble parts = some sent

section multipart
variable {H : Sha256} {m : S3Mirror} {key : ArtifactKey} {may : Version → Prop} {frozen : Prop}
  {t : ThreadId} {b b' b₀ : Bucket} {info : MirrorObject} {blob : Bytes} {metadata : UserMetadata}
  {id : String} {parts : List CompletedPart}

theorem Sending.stable {path : String} {sent : Bytes} (h : Sending path id t metadata parts sent b)
    (hb : Others path frozen t b b') : Sending path id t metadata parts sent b' := by
  obtain ⟨u,hu,ho,hrest⟩ := h.upload
  exact ⟨h.numbers,u,hb.uploads id u hu ho,ho,hrest⟩

/-- The next part extends what has been sent. -/
theorem Sending.part {path : String} {sent body : Bytes} {etag checksum : String} {u : Upload}
    (h : Sending path id t metadata parts sent b) (hu : b.uploads.lookup id = some u) :
    Sending path id t metadata (parts++[⟨parts.length+1,etag,checksum⟩]) (sent++body)
      { b with uploads := b.uploads.insert id { u with parts := u.parts.insert (parts.length+1) body } } := by
  obtain ⟨u',hu',ho,hp,hm,hsent⟩ := h.upload
  rw [hu] at hu'
  cases hu'
  refine ⟨fun part hpart => ?_,_,AList.lookup_insert _,ho,hp,hm,?_⟩
  · rw [List.length_append,List.length_singleton]
    rcases List.mem_append.mp hpart with hpart | hpart
    · have := h.numbers part hpart
      omega
    · obtain rfl := List.mem_singleton.mp hpart
      exact Nat.le_refl _
  · refine Upload.assemble_append _ _ _ ?_ ?_
    · rw [Upload.assemble_insert]
      · exact hsent
      · intro part hpart
        have := h.numbers part hpart
        omega
    · simp only [Upload.assemble,AList.lookup_insert,Option.bind_eq_bind,Option.bind_some,Option.pure_def,
        List.append_nil]

theorem uploadParts_holds (hsize : blob.length = info.bytes) (fuel : ℕ) {offset : ℕ}
    (hfuel : info.bytes-offset ≤ fuel) (h : Later (m.path key) b₀ b)
    (hs : Sending (m.path key) id t metadata parts (blob.take offset) b) :
    (m.uploadParts key blob info.bytes id fuel offset parts).run.Holds (racing H (m.path key) may frozen t)
      (fun r b' => Later (m.path key) b₀ b' ∧
        ∀ parts', r = .ok parts' → Sending (m.path key) id t metadata parts' blob b') b := by
  have hwhole : ∀ b parts, info.bytes ≤ offset → Sending (m.path key) id t metadata parts (blob.take offset) b →
      Sending (m.path key) id t metadata parts blob b := by
    intro b parts hle hs
    rwa [List.take_of_length_le (by omega)] at hs
  induction fuel generalizing offset parts b with
  | zero =>
    intro b' hb
    refine ⟨h.trans hb.later,fun parts' hr => ?_⟩
    cases hr
    exact (hwhole _ _ (by omega) hs).stable hb
  | succ fuel ih =>
    rw [S3Mirror.uploadParts]
    split
    · have hstop : ∀ (e : DatastoreError) b, Later (m.path key) b₀ b →
          (throw e : S3Op (List CompletedPart)).run.Holds (racing H (m.path key) may frozen t)
            (fun r b' => Later (m.path key) b₀ b' ∧
              ∀ parts', r = .ok parts' → Sending (m.path key) id t metadata parts' blob b') b :=
        fun e b hlater b' hb => ⟨hlater.trans hb.later,fun _ hr => by cases hr⟩
      refine holds_s3 fun b₁ hb r b₂ hstep => ⟨.quiet rfl hstep.2,?_⟩
      have hlater := h.trans hb.later
      have hs := hs.stable hb
      obtain ⟨-,hstep⟩ := hstep
      cases hstep
      cases r with
      | error e => exact hstop _ _ hlater
      | ok _ =>
        simp only
        split
        · exact hstop _ _ hlater
        · refine holds_s3 fun b₂ hb r b₃ hstep => ⟨.quiet rfl hstep.2,?_⟩
          have hlater := hlater.trans hb.later
          have hs := hs.stable hb
          obtain ⟨-,hstep⟩ := hstep
          cases hstep with
          | partFails => exact hstop _ _ hlater
          | part found own same =>
            have hsame : Later (m.path key) b₂ { b₂ with uploads := _ } := Later.of_eq rfl rfl
            have hlater' := hlater.trans hsame
            match r with
            | .error f => exact hstop _ _ hlater'
            | .ok (none,_) => exact hstop _ _ hlater'
            | .ok (some _,none) => exact hstop _ _ hlater'
            | .ok (some etag,some checksum) =>
              have hlength : 0 < S3Mirror.partSize info.bytes := by
                simp only [S3Mirror.partSize,partBytes]
                omega
              refine ih (by omega) hlater' ?_ ?_
              · rw [List.take_add]
                exact hs.part found
              · intro b parts hle hs
                rwa [List.take_of_length_le (by omega)] at hs
    · intro b' hb
      refine ⟨h.trans hb.later,fun parts' hr => ?_⟩
      cases hr
      exact (hwhole _ _ (by omega) hs).stable hb

theorem uploadAll_holds {expected : Option String} (hfit : Fit H blob info) (hprop : Proposes info metadata)
    (hmay : ∀ old : Version, S3Mirror.condition expected = .ifMatch old.etag → may old)
    (h : Later (m.path key) b₀ b) (hs : Sending (m.path key) id t metadata [] [] b) :
    (m.uploadAll key blob info id expected).run.Holds (racing H (m.path key) may frozen t)
      (Uploaded (m.path key) frozen t info b₀) b := by
  refine Program.Holds.bind_run ((uploadParts_holds hfit.size _ (by omega) h hs).mono ?_)
  rintro r b₁ ⟨hlater,hparts⟩
  cases r with
  | error e => exact .error hlater
  | ok parts =>
    have hs := hparts parts rfl
    refine holds_s3 fun b₂ hb r b₃ hstep => ?_
    have hlater := hlater.trans hb.later
    obtain ⟨u,hu,ho,hp,hm,hsent⟩ := (hs.stable hb).upload
    obtain ⟨-,hstep⟩ := hstep
    have hfailed : ∀ f b₃, Later (m.path key) b₀ b₃ →
        (if f.status = some 412 ∧ expected = none then m.existingAfterRace key info
          else throw (m.failure key "CompleteMultipartUpload" f)).run.Holds
          (racing H (m.path key) may frozen t) (Uploaded (m.path key) frozen t info b₀) b₃ := by
      intro f b₃ hlater
      split
      · exact existingAfterRace_holds hlater
      · exact holds_error hlater
    cases hstep with
    | complete found own same whole met fresh answer =>
      rename_i etag body u'
      rw [hu] at found
      cases found
      rw [hsent] at whole
      cases whole
      have hv : Proposed H info t ⟨blob,u.metadata,etag,some t⟩ := ⟨hm ▸ hprop,hfit,rfl⟩
      have herase : ∀ id' u', b₂.uploads.lookup id' = some u' → u'.owner ≠ t →
          (b₂.uploads.erase id).lookup id' = some u' := by
        intro id' u' hu' ho'
        rw [AList.lookup_erase_ne]
        · exact hu'
        · rintro rfl
          rw [hu] at hu'
          cases hu'
          exact ho' own
      have hstored : Caller H (m.path key) may t b₂
            { b₂.store (m.path key) ⟨blob,u.metadata,etag,some t⟩ with uploads := b₂.uploads.erase id } ∧
          Uploaded (m.path key) frozen t info b₀ (.ok .stored)
            { b₂.store (m.path key) ⟨blob,u.metadata,etag,some t⟩ with uploads := b₂.uploads.erase id } :=
        stored_uploaded hlater hv met hmay rfl rfl herase
      obtain ⟨hcaller,huploaded⟩ := hstored
      refine ⟨hcaller,?_⟩
      cases r with
      | ok _ => exact fun b₄ hb => huploaded.stable hb
      | error f => exact hfailed f _ huploaded.1
    | completeFails => exact ⟨.refl,hfailed _ _ hlater⟩

theorem multipart_holds {expected : Option String} (hfit : Fit H blob info) (hprop : Proposes info metadata)
    (hmay : ∀ old : Version, S3Mirror.condition expected = .ifMatch old.etag → may old)
    (h : Later (m.path key) b₀ b) :
    (m.multipart key blob info metadata expected).run.Holds (racing H (m.path key) may frozen t)
      (Uploaded (m.path key) frozen t info b₀) b := by
  refine holds_s3 fun b₁ hb r b₂ hstep => ⟨.quiet rfl hstep.2,?_⟩
  have hlater := h.trans hb.later
  obtain ⟨-,hstep⟩ := hstep
  cases hstep with
  | createFails answer =>
    match r with
    | .error f => exact holds_error hlater
    | .ok none => exact holds_error hlater
    | .ok (some id) => exact absurd rfl (answer id)
  | create fresh answer =>
    rename_i id
    have hlater' : Later (m.path key) b₀ { b₁ with uploads := b₁.uploads.insert id ⟨t,m.path key,metadata,∅⟩ } :=
      hlater.trans (.of_eq rfl rfl)
    match r with
    | .error f => exact holds_error hlater'
    | .ok none => exact holds_error hlater'
    | .ok (some id') =>
      cases answer _ rfl
      have hs : Sending (m.path key) id t metadata [] []
          { b₁ with uploads := b₁.uploads.insert id ⟨t,m.path key,metadata,∅⟩ } :=
        ⟨by simp,_,AList.lookup_insert _,rfl,rfl,rfl,rfl⟩
      refine Program.Holds.bind ((uploadAll_holds hfit hprop hmay hlater' hs).mono ?_)
      intro result b₃ huploaded
      have habort : (s3 (.abortUpload (m.path key) id) >>= fun _ => pure result).Holds
          (racing H (m.path key) may frozen t) (Uploaded (m.path key) frozen t info b₀) b₃ := by
        refine Program.Holds.perform_bind fun b₄ hb r b₅ hstep => ⟨.quiet rfl hstep.2,?_⟩
        have huploaded := huploaded.stable hb
        obtain ⟨-,hstep⟩ := hstep
        cases hstep with
        | abort found own =>
          refine fun b₆ hb => Uploaded.stable ?_ hb
          obtain ⟨hlater,hout⟩ := huploaded
          refine ⟨hlater.trans (.of_eq rfl rfl),fun out hr => ?_⟩
          obtain ⟨v,hheld,hrest⟩ := hout out hr
          exact ⟨v,hheld.later (.of_eq rfl rfl),hrest⟩
        | abortFails => exact fun b₆ hb => huploaded.stable hb
      match result with
      | .ok .stored => exact fun b₄ hb => huploaded.stable hb
      | .ok .alreadyPresent => exact habort
      | .error e => exact habort

/-- An access to the local file, which can fail, and what follows it. -/
theorem holds_file {path : String} {α : Type} {f : Unit → S3Op α} {Q : Except DatastoreError α → Bucket → Prop}
    (h : ∀ b', Others path frozen t b b' →
      (f ()).run.Holds (racing H path may frozen t) Q b' ∧ ∀ e, Q (.error e) b') :
    (file >>= f).run.Holds (racing H path may frozen t) Q b := by
  refine Program.Holds.bind_run (Program.Holds.perform_bind fun b₁ hb r b₂ hstep =>
    ⟨.quiet rfl hstep.2,fun b₃ hb' => ?_⟩)
  obtain ⟨-,hstep⟩ := hstep
  cases hstep
  cases r with
  | ok _ => exact (h b₃ (hb.trans hb')).1
  | error e => exact (h b₃ (hb.trans hb')).2 _

theorem localMatches_holds (h : Later (m.path key) b₀ b) :
    (S3Mirror.localMatches H blob info).run.Holds (racing H (m.path key) may frozen t) (fun r b' =>
      Later (m.path key) b₀ b' ∧ (r = .ok true → blob.length = info.bytes ∧ H.hex blob = info.sha256)) b := by
  refine holds_file fun b₁ hb => ⟨?_,fun e => ⟨h.trans hb.later,fun hr => by cases hr⟩⟩
  have hlater := h.trans hb.later
  split
  · exact fun b₂ hb => ⟨hlater.trans hb.later,fun hr => by cases hr⟩
  · rename_i hlen
    refine holds_file fun b₂ hb => ⟨fun b₃ hb' => ⟨(hlater.trans hb.later).trans hb'.later,fun hr => ?_⟩,
      fun e => ⟨hlater.trans hb.later,fun hr => by cases hr⟩⟩
    refine ⟨not_not.mp hlen,?_⟩
    simpa using Except.ok.inj hr

theorem write_holds {U : UrlCrate} {expected : Option String} (hbound : info.bytes < 2^64)
    (hmay : ∀ old : Version, S3Mirror.condition expected = .ifMatch old.etag → may old)
    (h : Later (m.path key) b₀ b) :
    (m.write H U key blob info expected).run.Holds (racing H (m.path key) may frozen t)
      (Uploaded (m.path key) frozen t info b₀) b := by
  have herror : ∀ {e : DatastoreError} {b}, Later (m.path key) b₀ b → ∀ b',
      Others (m.path key) frozen t b b' → Uploaded (m.path key) frozen t info b₀ (.error e) b' :=
    fun hlater b' hb => .error (hlater.trans hb.later)
  refine Program.Holds.except_bind (fun _ _ => ?_) (fun _ _ => herror h)
  refine Program.Holds.bind_run ((localMatches_holds h).mono ?_)
  rintro r b₁ ⟨hlater,hmatches⟩
  obtain e | found := r
  · exact .error hlater
  cases found with
  | false => exact holds_error hlater
  | true =>
    obtain ⟨hsize,hdigest⟩ := hmatches rfl
    refine Program.Holds.except_bind (fun metadata hmetadata => ?_) (fun _ _ => herror hlater)
    have hprop := uploadMetadata_proposes hmetadata
    have hfit : Fit H blob info := ⟨hdigest,hsize,hbound⟩
    have hrest : ∀ b₂, Later (m.path key) b₀ b₂ →
        (if info.bytes > partBytes then m.multipart key blob info metadata expected
          else m.putObject key blob info metadata expected 2).run.Holds (racing H (m.path key) may frozen t)
          (Uploaded (m.path key) frozen t info b₀) b₂ := by
      intro b₂ hlater
      split
      · exact multipart_holds hfit hprop hmay hlater
      · exact putObject_holds hfit hprop hmay 2 hlater
    cases expected with
    | some etag => exact Program.Holds.bind_run fun b₂ hb => hrest b₂ (hlater.trans hb.later)
    | none =>
      refine Program.Holds.bind_run ((head_holds hlater).mono ?_)
      rintro r b₂ ⟨hlater,hfound⟩
      obtain e | found := r
      · exact .error hlater
      cases found with
      | none => exact hrest b₂ hlater
      | some existing =>
        obtain ⟨v,hheld,hv,hkeep⟩ := hfound existing rfl
        exact fun b₃ hb => (matchingExisting_uploaded hlater hv hheld hkeep).stable hb

theorem put_holds {U : UrlCrate} (hbound : info.bytes < 2^64) (h : Later (m.path key) b₀ b) :
    (m.put H U key blob info).run.Holds (racing H (m.path key) may frozen t)
      (Uploaded (m.path key) frozen t info b₀) b :=
  write_holds hbound (fun _ he => by cases he) h

theorem replace_holds {U : UrlCrate} {etag : String} (hbound : info.bytes < 2^64)
    (hmay : ∀ old : Version, old.etag = etag → may old) (h : Later (m.path key) b₀ b) :
    (m.replace H U key blob info etag).run.Holds (racing H (m.path key) may frozen t)
      (Uploaded (m.path key) frozen t info b₀) b := by
  rw [S3Mirror.replace]
  split
  · exact holds_error h
  · refine write_holds hbound (fun old he => hmay old ?_) h
    cases he
    rfl

end multipart
end StarfieldDatastore
