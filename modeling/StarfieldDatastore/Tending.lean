import StarfieldDatastore.Interleaving.Earning
import StarfieldDatastore.Mirroring

/-! `verify --at`, with and without `--repair`, by any number of threads that tend the same bucket. What
the service accepts stays accepted, and a verification that succeeds leaves nothing else. -/
namespace StarfieldDatastore
open Interleaving

/-- The metadata are those of content that the artifact under the path asks for. -/
def Describes (H : Sha256) (m : S3Mirror) (listed : Artifact → Prop) (path : String) (metadata : UserMetadata) :
    Prop :=
  ∀ a, listed a → m.path a.key = path → ∃ body : Bytes, body.length < 2^64 ∧ a.Wants H body ∧
    metadata.lookup "sha256" = some (H.hex body) ∧ metadata.lookup "bytes" = some (toString body.length)

/-- A request that deletes nothing, with metadata that are proposed for its path. -/
def S3Call.Fair (proposed : String → UserMetadata → Prop) : S3Call → Prop
  | .putObject path metadata _ _ => proposed path metadata
  | .createUpload path metadata => proposed path metadata
  | .deleteObject _ => False
  | _ => True

/-- The answer shows that the service accepts the object of the artifact at that moment. -/
def Shows (m : S3Mirror) (a : Artifact) : (c : S3Call) → c.Ret → Prop
  | .headObject path, r => path = m.path a.key ∧ ∃ output info, r = .ok output ∧ mirrorObject output = .ok info ∧
      checkMetadata a info = .ok ()
  | .putObject path _ _ _, r => path = m.path a.key ∧ r = .ok ()
  | .completeUpload path _ _ _, r => path = m.path a.key ∧ r = .ok ()
  | _, _ => False

section fair
variable {H : Sha256} {m : S3Mirror} {listed : Artifact → Prop} {a : Artifact} {t : ThreadId} {b b' : Bucket}
  {v : Version} {path : String} {metadata : UserMetadata}

theorem toString_inj {k n : ℕ} (h : toString k = toString n) : k = n := by
  have hdigits : ∀ n : ℕ, (toString n).toList = Nat.toDigits 10 n := fun n => by
    simp only [Nat.toString_eq_repr,Nat.toList_repr]
  have := congrArg (fun s : String => Nat.ofDigitChars 10 s.toList 0) h
  simpa only [hdigits,Nat.ofDigitChars_ten_toDigits] using this

theorem lookup_of_insert {uploads : AList fun _ : String => Upload} {id id' : String} {u u' : Upload}
    (h : (uploads.insert id u).lookup id' = some u') : u' = u ∨ uploads.lookup id' = some u' := by
  by_cases hid : id' = id
  · subst hid
    rw [AList.lookup_insert] at h
    exact .inl (Option.some.inj h).symm
  · rw [AList.lookup_insert_ne hid] at h
    exact .inr h

theorem lookup_of_erase {uploads : AList fun _ : String => Upload} {id id' : String} {u : Upload}
    (h : (uploads.erase id).lookup id' = some u) : uploads.lookup id' = some u := by
  by_cases hid : id' = id
  · subst hid
    rw [AList.lookup_erase] at h
    cases h
  · rwa [AList.lookup_erase_ne hid] at h

/-- Truthful metadata that describe what the artifact asks for are those of such content. -/
theorem Describes.accepted (h : Describes H m listed path v.metadata) (hv : v.Truthful H) (hl : listed a)
    (hpath : m.path a.key = path) (hobject : b.object path = some v) : Accepted m b a := by
  obtain ⟨body,hsize,hwants,hdigest,hbytes⟩ := h a hl hpath
  have hlen : v.body.length = body.length := toString_inj (Option.some.inj (hv.size.symm.trans hbytes))
  have hcarries : v.Carries ⟨H.hex body,body.length,none,none,none,0⟩ :=
    ⟨hdigest,by rw [hbytes]; exact parseU64_toString hsize,hlen⟩
  obtain ⟨info,hinfo,hsha,hinfobytes⟩ := mirrorObject_of_carries hcarries (H.shape body)
  exact ⟨v,info,hpath ▸ hobject,hinfo,checkMetadata_of_wants hwants hsha.symm hinfobytes.symm⟩

/-- What a fair request stores the service accepts, so that it displaces nothing good by something else. -/
theorem S3Call.Does.fair {c : S3Call} {r : c.Ret} (h : S3Call.Does t c b r b') (hc : c.Fair (Describes H m listed))
    (htruthful : AllTruthful H b') (hown : ∀ id u, b.uploads.lookup id = some u → u.owner = t →
      Describes H m listed u.path u.metadata) (hl : listed a) :
    (Accepted m b a → Accepted m b' a) ∧ (Shows m a c r → Accepted m b' a) := by
  have hstored : ∀ {path' : String} {v : Version}, Describes H m listed path' v.metadata → v.writer = some t →
      b'.object = (b.store path' v).object → b'.written = (b.store path' v).written →
      (Accepted m b a → Accepted m b' a) ∧ (path' = m.path a.key → Accepted m b' a) := by
    intro path' v hdescribes hwriter ho hw
    have hsame : path' = m.path a.key → Accepted m b' a := by
      intro hpath
      have hmem : v ∈ b'.written path' := by
        rw [hw]
        simp [Bucket.store]
      have hnow : b'.object path' = some v := by
        rw [ho]
        exact Function.update_self _ _ _
      exact hdescribes.accepted (htruthful _ v hmem (by rw [hwriter]; rfl)) hl hpath.symm hnow
    refine ⟨fun hold => ?_,hsame⟩
    by_cases hpath : path' = m.path a.key
    · exact hsame hpath
    · obtain ⟨v',info,hobject,hrest⟩ := hold
      refine ⟨v',info,?_,hrest⟩
      rw [ho,store_object_ne (Ne.symm hpath)]
      exact hobject
  cases h with
  | head found =>
    rename_i path v
    refine ⟨id,?_⟩
    rintro ⟨rfl,output,info,hr,hinfo,hcheck⟩
    cases hr
    exact ⟨v,info,found,hinfo,hcheck⟩
  | headFails honest =>
    refine ⟨id,?_⟩
    rintro ⟨-,output,info,hr,-⟩
    cases hr
  | put met fresh answer =>
    rename_i path metadata body cond etag _
    have hnew : Describes H m listed path (Version.metadata ⟨body,metadata,etag,some t⟩) := hc
    obtain ⟨hkeep,hnow⟩ := hstored hnew rfl rfl rfl
    exact ⟨hkeep,fun hshows => hnow hshows.1⟩
  | putFails honest => exact ⟨id,fun hshows => by cases hshows.2⟩
  | complete found own same whole met fresh answer =>
    subst same
    rename_i id parts cond etag body u _
    have hnew : Describes H m listed u.path (Version.metadata ⟨body,u.metadata,etag,some t⟩) :=
      hown _ _ found own
    obtain ⟨hkeep,hnow⟩ := hstored hnew rfl rfl rfl
    exact ⟨hkeep,fun hshows => hnow hshows.1⟩
  | completeFails honest => exact ⟨id,fun hshows => by cases hshows.2⟩
  | delete => exact hc.elim
  | _ => exact ⟨id,fun hshows => hshows.elim⟩

/-- The uploads in progress stay fair. -/
theorem S3Call.Does.fair_uploads {c : S3Call} {r : c.Ret} {idle : ThreadId → Prop} (h : S3Call.Does t c b r b')
    (hc : c.Fair (Describes H m listed))
    (hu : ∀ id u, b.uploads.lookup id = some u → idle u.owner ∨ Describes H m listed u.path u.metadata) :
    ∀ id u, b'.uploads.lookup id = some u → idle u.owner ∨ Describes H m listed u.path u.metadata := by
  cases h with
  | create fresh answer =>
    intro id u hlook
    rcases lookup_of_insert hlook with rfl | hold
    · exact .inr hc
    · exact hu id u hold
  | part found own same =>
    intro id u hlook
    rcases lookup_of_insert hlook with rfl | hold
    · have hfound := hu _ _ found
      exact hfound
    · exact hu id u hold
  | complete found own same whole met fresh answer =>
    intro id u hlook
    exact hu id u (lookup_of_erase hlook)
  | abort found own =>
    intro id u hlook
    exact hu id u (lookup_of_erase hlook)
  | _ => exact hu

end fair
section earns
variable {H : Sha256} {U : UrlCrate} {m : S3Mirror} {a : Artifact} {info : MirrorObject} {blob : Bytes}
  {metadata : UserMetadata} {expected : Option String}

theorem head_earns : (m.head a.key).run.Earns (Shows m a) fun out =>
    ∃ found, out = .ok found ∧ ∃ info, found = some info ∧ checkMetadata a info = .ok () := by
  intro r
  match r with
  | .error f =>
    right
    rintro ⟨found,hfound,info,rfl,-⟩
    split at hfound <;> cases hfound
  | .ok output =>
    cases hmeta : mirrorObject output with
    | error e =>
      right
      rintro ⟨found,hfound,info,rfl,-⟩
      rw [hmeta] at hfound
      cases hfound
    | ok info =>
      by_cases hcheck : checkMetadata a info = .ok ()
      · exact .inl ⟨rfl,output,info,rfl,hmeta,hcheck⟩
      · right
        rintro ⟨found,hfound,info',rfl,hcheck'⟩
        rw [hmeta] at hfound
        cases hfound
        exact hcheck hcheck'

/-- An object that is there already counts only if it has the digest and the size of the proposal. -/
theorem matchingExisting_earns {found : MirrorObject}
    (hinfo : ∀ found : MirrorObject, found.sha256 = info.sha256 → found.bytes = info.bytes →
      checkMetadata a found = .ok ()) (hfound : ¬ checkMetadata a found = .ok ()) :
    (liftM (matchingExisting found info) : S3Op PutOutcome).run.Earns (Shows m a) fun out => ∃ o, out = .ok o := by
  rintro ⟨o,ho⟩
  simp only [matchingExisting] at ho
  split at ho
  · rename_i hsame
    exact hfound (hinfo found hsame.1 hsame.2)
  · cases ho

theorem existingAfterRace_earns (hinfo : ∀ found : MirrorObject, found.sha256 = info.sha256 →
      found.bytes = info.bytes → checkMetadata a found = .ok ()) :
    (m.existingAfterRace a.key info).run.Earns (Shows m a) fun out => ∃ o, out = .ok o := by
  refine .bind_run head_earns (fun e h => by cases h.choose_spec) fun found hfound => ?_
  cases found with
  | none => rintro ⟨o,ho⟩; cases ho
  | some found => exact matchingExisting_earns hinfo fun hcheck => hfound ⟨found,rfl,hcheck⟩

theorem putRequest_earns (hinfo : ∀ found : MirrorObject, found.sha256 = info.sha256 →
      found.bytes = info.bytes → checkMetadata a found = .ok ()) {again : Option (S3Op PutOutcome)}
    (hagain : ∀ op, again = some op → op.run.Earns (Shows m a) fun out => ∃ o, out = .ok o) :
    (m.putRequest a.key blob info metadata expected again).run.Earns (Shows m a) fun out => ∃ o, out = .ok o := by
  have hthrow : ∀ e : DatastoreError, (throw e : S3Op PutOutcome).run.Earns (Shows m a) fun out =>
      ∃ o, out = .ok o := by
    rintro e ⟨o,ho⟩
    cases ho
  refine .bind_later (fun e h => by cases h.choose_spec) fun opened => ?_
  cases opened with
  | error e => exact hthrow _
  | ok _ =>
    intro r
    cases r with
    | ok _ => exact .inl ⟨rfl,rfl⟩
    | error f =>
      right
      change (if f.status = some 412 ∧ expected = none then m.existingAfterRace a.key info
        else if f.status = some 409 then again.getD (throw (m.failure a.key "PUT" f))
        else throw (m.failure a.key "PUT" f)).run.Earns _ _
      split
      · exact existingAfterRace_earns hinfo
      · split
        · cases again with
          | none => exact hthrow _
          | some op => exact hagain op rfl
        · exact hthrow _

theorem putObject_earns (hinfo : ∀ found : MirrorObject, found.sha256 = info.sha256 →
      found.bytes = info.bytes → checkMetadata a found = .ok ()) (left : ℕ) :
    (m.putObject a.key blob info metadata expected left).run.Earns (Shows m a) fun out => ∃ o, out = .ok o := by
  induction left with
  | zero => exact putRequest_earns hinfo fun op h => by cases h
  | succ left ih =>
    refine putRequest_earns hinfo fun op h => ?_
    cases h
    exact ih

theorem multipart_earns (hinfo : ∀ found : MirrorObject, found.sha256 = info.sha256 →
      found.bytes = info.bytes → checkMetadata a found = .ok ()) :
    (m.multipart a.key blob info metadata expected).run.Earns (Shows m a) fun out => ∃ o, out = .ok o := by
  refine .bind_later (fun e h => by cases h.choose_spec) fun created => ?_
  match created with
  | .error f => rintro ⟨o,ho⟩; cases ho
  | .ok none => rintro ⟨o,ho⟩; cases ho
  | .ok (some id) =>
    have hall : (m.uploadAll a.key blob info id expected).run.Earns (Shows m a) fun out => ∃ o, out = .ok o := by
      refine .bind_later (fun e h => by cases h.choose_spec) fun parts r => ?_
      cases r with
      | ok _ => exact .inl ⟨rfl,rfl⟩
      | error f =>
        right
        change (if f.status = some 412 ∧ expected = none then m.existingAfterRace a.key info
          else throw (m.failure a.key "CompleteMultipartUpload" f)).run.Earns _ _
        split
        · exact existingAfterRace_earns hinfo
        · rintro ⟨o,ho⟩
          cases ho
    refine .bind hall fun result hresult => ?_
    match result with
    | .ok o => exact absurd ⟨o,rfl⟩ hresult
    | .error e =>
      intro r
      right
      rintro ⟨o,ho⟩
      cases ho

/-- An upload that succeeds has stored its object or found one like it. -/
theorem write_earns (hinfo : ∀ found : MirrorObject, found.sha256 = info.sha256 →
      found.bytes = info.bytes → checkMetadata a found = .ok ()) :
    (m.write H U a.key blob info expected).run.Earns (Shows m a) fun out => ∃ o, out = .ok o := by
  have herror : ∀ e : DatastoreError,
      ¬ ∃ o : PutOutcome, (Except.error e : Except DatastoreError PutOutcome) = .ok o := by
    rintro e ⟨o,ho⟩
    cases ho
  refine .bind_later herror fun _ => .bind_later herror fun matching => ?_
  cases matching with
  | false => exact herror _
  | true =>
    refine .bind_later herror fun metadata => ?_
    have hrest : (if info.bytes > partBytes then m.multipart a.key blob info metadata expected
        else m.putObject a.key blob info metadata expected 2).run.Earns (Shows m a) fun out => ∃ o, out = .ok o := by
      split
      · exact multipart_earns hinfo
      · exact putObject_earns hinfo 2
    cases expected with
    | some etag => exact hrest
    | none =>
      refine .bind_run head_earns herror fun found hfound => ?_
      cases found with
      | none => exact hrest
      | some found => exact matchingExisting_earns hinfo fun hcheck => hfound ⟨found,rfl,hcheck⟩

theorem checkObject_returns {original : Except DatastoreError (Option MirrorObject)} :
    (checkObject H m a original).run.Returns fun out => out = .ok () →
      ∃ info, original = .ok (some info) ∧ checkMetadata a info = .ok () := by
  refine .except_bind (fun e he h => by cases h) fun found hfound => ?_
  cases found with
  | none => exact fun h => by cases h
  | some info =>
    refine .bind_run (.of_all fun out => ?_)
    match out with
    | .error e => exact fun h => by cases h
    | .ok none => exact fun h => by cases h
    | .ok (some body) =>
      refine .bind_run (.of_all fun out => ?_)
      cases out with
      | error e => exact fun h => by cases h
      | ok _ =>
        refine .bind_run (.of_all fun out => ?_)
        cases out with
        | error e => exact fun h => by cases h
        | ok _ => exact fun h => ⟨info,hfound,checkMetadata_of_compare h⟩

/-- An object that is found in order has metadata that the service accepts. -/
theorem examine_earns (repair : Bool) : (examine H m repair a).run.Earns (Shows m a) fun out =>
    ∃ etag, out = .ok (etag,.ok ()) := by
  have herror : ∀ e : DatastoreError, ¬ ∃ etag : Option String,
      (Except.error e : Except DatastoreError (Option String × Except DatastoreError Unit)) = .ok (etag,.ok ()) := by
    rintro e ⟨etag,h⟩
    cases h
  have hcaught : (caught (m.head a.key)).run.Earns (Shows m a) fun out => ∃ original, out = .ok original ∧
      ∃ info, original = .ok (some info) ∧ checkMetadata a info = .ok () := by
    refine .bind head_earns fun original horiginal => ?_
    rintro ⟨original',h,info,rfl,hcheck⟩
    cases h
    exact horiginal ⟨_,rfl,info,rfl,hcheck⟩
  refine .bind_run hcaught herror fun original horiginal => .bind_later herror fun etag =>
    .bind_later herror fun _ => .of_returns ?_
  refine .bind_run (.bind (checkObject_returns.mono fun verdict hverdict => ?_))
  rintro ⟨etag',h⟩
  cases h
  exact horiginal (hverdict rfl)

end earns
/-- The cache and the bucket are in order, and so are the uploads of whoever makes any. -/
structure Tended (H : Sha256) (S : Set Bytes) (m : S3Mirror) (M : Manifest) (idle : ThreadId → Prop)
    (s : Site) : Prop where
  known : Known H S s.world
  truthful : AllTruthful H s.bucket
  uploads : ∀ id u, s.bucket.uploads.lookup id = some u → idle u.owner ∨ Describes H m M.Lists u.path u.metadata

/-- What the others do while `t` works. What is accepted stays accepted. -/
structure Meanwhile (H : Sha256) (S : Set Bytes) (m : S3Mirror) (M : Manifest) (t : ThreadId) (s s' : Site) :
    Prop where
  world : (shelfSetting H S M.Lists t).rely s.world s'.world
  bucket : ∀ path, Others path False t s.bucket s'.bucket
  accepted : ∀ a, M.Lists a → Accepted m s.bucket a → Accepted m s'.bucket a

/-- What `t` does itself. -/
structure Tends (H : Sha256) (S : Set Bytes) (m : S3Mirror) (M : Manifest) (idle : ThreadId → Prop)
    (t : ThreadId) (s s' : Site) : Prop where
  world : s'.world = s.world ∨ shelfGuar H S M.Lists t s.world s'.world
  bucket : ∀ path, Caller H path (fun _ => True) t s.bucket s'.bucket
  accepted : ∀ a, M.Lists a → Accepted m s.bucket a → Accepted m s'.bucket a
  tended : Tended H S m M idle s → Tended H S m M idle s'

/-- One thread among those that tend a bucket. -/
def tendSetting (H : Sha256) (S : Set Bytes) (m : S3Mirror) (M : Manifest) (idle : ThreadId → Prop)
    (t : ThreadId) : Setting AdminCall AdminCall.Ret Site where
  step c s r s' := Tended H S m M idle s ∧ c.Does t s r s' ∧ s'.world.contents ⊆ S
  rely := Meanwhile H S m M t
  guar := Tends H S m M idle t
  rely_refl _ := ⟨(shelfSetting H S M.Lists t).rely_refl _,fun _ => .refl _,fun _ _ h => h⟩
  rely_trans h h' := ⟨(shelfSetting H S M.Lists t).rely_trans h.world h'.world,
    fun path => (h.bucket path).trans (h'.bucket path),fun a hl hold => h'.accepted a hl (h.accepted a hl hold)⟩

section tend
variable {H : Sha256} {U : UrlCrate} {S : Set Bytes} {ds : Datastore} {m : S3Mirror} {M : Manifest}
  {idle : ThreadId → Prop} {t : ThreadId} {s : Site} {a : Artifact} {α : Type}

/-- A program on the cache root leaves the bucket alone. -/
theorem tend_store {p : Prog α} {Q : α → World → Prop}
    (hp : p.Holds { shelfSetting H S M.Lists t with guar := shelfGuar H S M.Lists t } Q s.world) :
    (p.embed Admin.inStore).Holds (tendSetting H S m M idle t) (fun out s' => Q out s'.world) s := by
  have hall : p.Only fun _ => True := .of_forall fun _ => trivial
  have hview : ∀ s s', Meanwhile H S m M t s s' → True →
      (shelfSetting H S M.Lists t).rely s.world s'.world ∧ True := fun s s' h _ => ⟨h.world,trivial⟩
  have hembed : (p.embed Admin.inStore).Holds (tendSetting H S m M idle t) (fun out s' => Q out s'.world ∧ True) s := by
    apply Program.Holds.embed hp hall hview _ trivial
    rintro c s r s' - - ⟨htended,⟨w',hdoes,rfl⟩,hsub⟩
    exact ⟨⟨htended.known,hdoes,hsub⟩,fun hguar => ⟨⟨.inr hguar,fun _ => .refl,fun _ _ h => h,fun h =>
      ⟨⟨hguar.2.consistent h.known.consistent,hsub⟩,h.truthful,h.uploads⟩⟩,trivial⟩⟩
  exact hembed.mono fun _ _ h => h.1

/-- What a fair request of a thread that uploads keeps, and what it brings about. -/
theorem Tended.fair {b' : Bucket} {c : S3Call} {r : c.Ret} (h : Tended H S m M idle s) (hidle : ¬ idle t)
    (hc : c.Fair (Describes H m M.Lists)) (hdoes : S3Call.Does t c s.bucket r b') (htruthful : AllTruthful H b')
    (hl : M.Lists a) : (Accepted m s.bucket a → Accepted m b' a) ∧ (Shows m a c r → Accepted m b' a) := by
  refine hdoes.fair hc htruthful (fun id u hu ho => ?_) hl
  rcases h.uploads id u hu with hid | hdescribes
  · exact absurd (ho ▸ hid) hidle
  · exact hdescribes

/-- Fair requests of a thread that uploads. -/
theorem tend_s3 {path : String} {p : Program S3Call S3Call.Ret α} (hidle : ¬ idle t)
    (hp : p.Holds (racing H path (fun _ => True) False t) (fun _ _ => True) s.bucket)
    (hfair : p.Only (S3Call.Fair (Describes H m M.Lists))) :
    (p.embed Admin.inS3).Holds (tendSetting H S m M idle t) (fun _ _ => True) s := by
  have hview : ∀ s s', Meanwhile H S m M t s s' → True → Others path False t s.bucket s'.bucket ∧ True :=
    fun s s' h _ => ⟨h.bucket path,trivial⟩
  have hembed : (p.embed Admin.inS3).Holds (tendSetting H S m M idle t) (fun _ _ => True ∧ True) s := by
    apply Program.Holds.embed hp hfair hview _ trivial
    rintro c s r s' hc - ⟨htended,⟨b',hdoes,rfl⟩,-⟩
    refine ⟨⟨htended.truthful,hdoes⟩,fun hguar => ⟨?_,trivial⟩⟩
    have htruthful := hguar.truthful htended.truthful
    refine ⟨.inl rfl,fun path => hdoes.caller (fun _ _ => .inr trivial) fun _ => htruthful,
      fun a hl => (htended.fair hidle hc hdoes htruthful hl).1,fun h => ⟨h.known,htruthful,?_⟩⟩
    exact hdoes.fair_uploads hc h.uploads
  exact hembed.mono fun _ _ _ => trivial

/-- The same with what they earn. -/
theorem tend_earns {path : String} {p : Program S3Call S3Call.Ret α} {Q : α → Prop} (hidle : ¬ idle t)
    (hl : M.Lists a) (hp : p.Holds (racing H path (fun _ => True) False t) (fun _ _ => True) s.bucket)
    (hfair : p.Only (S3Call.Fair (Describes H m M.Lists))) (hearns : p.Earns (Shows m a) Q) :
    (p.embed Admin.inS3).Holds (tendSetting H S m M idle t) (fun out s' => Q out → Accepted m s'.bucket a) s := by
  refine (hearns.embed.holds hfair.embed (tend_s3 hidle hp hfair) (fun _ _ h => h.accepted a hl)
    (fun _ _ h => h.accepted a hl) ?_).mono fun _ _ h => h.2
  rintro - s r s' ⟨c,rfl,hc⟩ ⟨c',hsame,hshows⟩ ⟨htended,⟨b',hdoes,rfl⟩,-⟩ hguar
  cases hsame
  exact (htended.fair hidle hc hdoes (hguar.tended htended).truthful hl).2 hshows

/-- The requests of a look at an object change nothing. -/
theorem examine_quiet (repair : Bool) : (examine H m repair a).run.Only fun c =>
    c.writes = false ∧ c.Fair (Describes H m M.Lists) := by
  have hfile : file.run.Only fun c => c.writes = false ∧ c.Fair (Describes H m M.Lists) :=
    file_admits ⟨rfl,trivial⟩
  have hetag : (repairEtag m repair a.key).run.Only fun c => c.writes = false ∧ c.Fair (Describes H m M.Lists) := by
    cases repair with
    | false => trivial
    | true => exact observedEtag_admits ⟨rfl,trivial⟩
  have hfetch : (m.fetch a.key).run.Only fun c => c.writes = false ∧ c.Fair (Describes H m M.Lists) :=
    fetch_admits ⟨rfl,trivial⟩ ⟨rfl,trivial⟩
  refine .bind_run (.bind (head_admits ⟨rfl,trivial⟩) fun _ => trivial) fun original =>
    .bind_run hetag fun etag => .bind_run hfile fun _ => .bind_run (.bind ?_ fun _ => trivial) fun _ => trivial
  refine .except_bind fun found _ => ?_
  cases found with
  | none => trivial
  | some info =>
    refine .bind_run hfetch fun found => ?_
    cases found with
    | none => trivial
    | some body => exact .bind_run hfile fun _ => .bind_run hfile fun _ => .lift_except _

theorem examine_tends (hidle : ¬ idle t) (hl : M.Lists a) (repair : Bool) :
    (onS3 (examine H m repair a)).run.Holds (tendSetting H S m M idle t) (fun out s' =>
      (∃ etag, out = .ok (etag,.ok ())) → Accepted m s'.bucket a) s := by
  have hquiet : (examine H m repair a).run.Holds (racing H (m.path a.key) (fun _ => True) False t)
      (fun _ _ => True) s.bucket := by
    refine .of_only (A := fun _ => True) (examine_quiet (M := M) repair) (fun _ _ _ _ => trivial) ?_ trivial
    exact fun c b r b' hc _ hstep => ⟨.quiet hc.1 hstep.2,trivial⟩
  exact tend_earns hidle hl hquiet ((examine_quiet repair).mono fun _ h => h.2) (examine_earns repair)

theorem S3Mirror.path_inj {k k' : ArtifactKey} (h : m.path k = m.path k') : k = k' := by
  have htext : k.text = k'.text := by
    simp only [S3Mirror.path,ArtifactKey.mirrorPath] at h
    split at h
    · exact h
    · have hlist := congrArg String.toList h
      simp only [String.toList_append,List.append_assoc] at hlist
      exact String.toList_inj.mp (List.append_cancel_left (List.append_cancel_left hlist))
  cases k
  cases k'
  cases htext
  rfl

/-- What a proposal for a key says is so of content that the artifact under the key asks for. -/
def MirrorObject.Suits (H : Sha256) (listed : Artifact → Prop) (key : ArtifactKey) (info : MirrorObject) : Prop :=
  info.bytes < 2^64 ∧ ∀ a, listed a → a.key = key → ∃ body : Bytes, H.hex body = info.sha256 ∧
    body.length = info.bytes ∧ a.Wants H body

/-- An upload, in place of the version with that ETag if one is given. -/
def S3Mirror.upload (H : Sha256) (U : UrlCrate) (m : S3Mirror) (key : ArtifactKey) (blob : Bytes)
    (info : MirrorObject) : Option String → S3Op PutOutcome
  | some etag => m.replace H U key blob info etag
  | none => m.put H U key blob info

section upload
variable {key : ArtifactKey} {info : MirrorObject} {blob : Bytes} {b : Bucket}

theorem upload_holds (hsuits : info.Suits H M.Lists key) (etag : Option String) :
    (m.upload H U key blob info etag).run.Holds (racing H (m.path key) (fun _ => True) False t)
      (fun _ _ => True) b := by
  cases etag with
  | none => exact (put_holds hsuits.1 (.refl _ _)).mono fun _ _ _ => trivial
  | some etag => exact (replace_holds hsuits.1 (fun _ _ => trivial) (.refl _ _)).mono fun _ _ _ => trivial

theorem upload_fair (hsuits : info.Suits H M.Lists key) (etag : Option String) :
    (m.upload H U key blob info etag).run.Only (S3Call.Fair (Describes H m M.Lists)) := by
  have hproposed : ∀ metadata, uploadMetadata U info = .ok metadata →
      Describes H m M.Lists (m.path key) metadata := by
    intro metadata hmeta a hl hpath
    obtain ⟨body,hhex,hbytes,hwants⟩ := hsuits.2 a hl (S3Mirror.path_inj hpath)
    obtain ⟨hdigest,hlen⟩ := uploadMetadata_proposes hmeta
    exact ⟨body,hbytes ▸ hsuits.1,hwants,hhex ▸ hdigest,hbytes ▸ hlen⟩
  have hgranted : ∀ cond, Granted (S3Call.Fair (Describes H m M.Lists)) (m.path key)
      (Describes H m M.Lists (m.path key)) cond := fun cond =>
    ⟨trivial,trivial,fun _ _ h => h,fun _ h => h,fun _ _ _ => trivial,fun _ _ => trivial,fun _ => trivial⟩
  cases etag with
  | none => exact write_admits (hgranted _) hproposed
  | some etag =>
    rw [S3Mirror.upload,S3Mirror.replace]
    split
    · trivial
    · exact write_admits (hgranted _) hproposed

theorem upload_earns (hsuits : info.Suits H M.Lists a.key) (hl : M.Lists a) (etag : Option String) :
    (m.upload H U a.key blob info etag).run.Earns (Shows m a) fun out => ∃ o, out = .ok o := by
  obtain ⟨body,hhex,hbytes,hwants⟩ := hsuits.2 a hl rfl
  have hinfo : ∀ found : MirrorObject, found.sha256 = info.sha256 → found.bytes = info.bytes →
      checkMetadata a found = .ok () := fun found hsha hlen =>
    checkMetadata_of_wants hwants (hhex.trans hsha.symm) (hbytes.trans hlen.symm)
  cases etag with
  | none => exact write_earns hinfo
  | some etag =>
    rw [S3Mirror.upload,S3Mirror.replace]
    split
    · rintro ⟨o,ho⟩
      cases ho
    · exact write_earns hinfo

end upload

theorem publishObject_tends (hS : Set.InjOn H.hex S) (hsize : ∀ body ∈ S, body.length < 2^64) (hidle : ¬ idle t)
    (hl : M.Lists a) (etag : Option String) :
    (publishObject H U ds m a etag).run.Holds (tendSetting H S m M idle t) (fun out s' =>
      out = .ok () → Accepted m s'.bucket a) s := by
  unfold publishObject
  split
  · exact fun s' _ h => by cases h
  · have hstore : ∀ (β : Type) (p : Prog β) (Q : β → World → Prop) (s : Site), True →
        p.Holds { shelfSetting H S M.Lists t with guar := shelfGuar H S M.Lists t } Q s.world →
          (p.embed Admin.inStore).Holds (tendSetting H S m M idle t) (fun out s' => Q out s'.world ∧ True) s :=
      fun _ _ _ _ _ hp => (tend_store hp).mono fun _ _ h => ⟨h,trivial⟩
    apply prepare_holds (f := fun info blob => do
      let _ ← onS3 (m.upload H U a.key blob info etag)
      return ()) (A := fun _ => True) hS hl hstore trivial
    · intro e s' h
      cases h
    intro info blob body s₃ _ hbody hhex hbytes hwants
    have hsuits : info.Suits H M.Lists a.key := by
      refine ⟨hbytes ▸ hsize body hbody,fun a' hl' hkey => ⟨body,hhex,hbytes,?_⟩⟩
      exact M.onePerKey a' a hl' hl hkey ▸ hwants
    refine Program.Holds.bind_run ((tend_earns hidle hl (upload_holds hsuits etag) (upload_fair hsuits etag)
      (upload_earns hsuits hl etag)).mono fun out s₄ hout => ?_)
    cases out with
    | error e => exact fun h => by cases h
    | ok o => exact fun s₅ hs₅ _ => hs₅.accepted a hl (hout ⟨o,rfl⟩)

/-- An object is in order afterwards where the verification says so. -/
theorem verifyObject_tends (hS : Set.InjOn H.hex S) (hsize : ∀ body ∈ S, body.length < 2^64) (hidle : ¬ idle t)
    (hl : M.Lists a) (repair : Bool) :
    (verifyObject H U ds m repair a).run.Holds (tendSetting H S m M idle t) (fun out s' =>
      out = .ok true → Accepted m s'.bucket a) s := by
  refine Program.Holds.bind_run ((examine_tends hidle hl repair).mono fun out s₁ hout => ?_)
  match out with
  | .error e => exact fun h => by cases h
  | .ok (etag,.ok ()) => exact fun s₂ hs₂ _ => hs₂.accepted a hl (hout ⟨etag,rfl⟩)
  | .ok (etag,.error e) =>
    cases repair with
    | false => exact fun s₂ hs₂ h => by cases h
    | true =>
      refine Program.Holds.bind_run ((publishObject_tends hS hsize hidle hl etag).mono fun out s₂ hout => ?_)
      cases out with
      | error e => exact fun h => by cases h
      | ok _ => exact fun s₃ hs₃ _ => hs₃.accepted a hl (hout rfl)

/-- As long as nothing is found failing, everything up to there is in order. -/
theorem verifyObjects_tends (hS : Set.InjOn H.hex S) (hsize : ∀ body ∈ S, body.length < 2^64) (hidle : ¬ idle t)
    (repair : Bool) (artifacts : List Artifact) : ∀ {failed : ℕ} {s : Site}, (∀ a ∈ artifacts, M.Lists a) →
      (verifyObjects H U ds m repair failed artifacts).run.Holds (tendSetting H S m M idle t) (fun out s' =>
        ∀ n, out = .ok n → failed ≤ n ∧ (n = failed → ∀ a ∈ artifacts, Accepted m s'.bucket a)) s := by
  induction artifacts with
  | nil =>
    intro failed s hl s' _ n h
    cases h
    exact ⟨le_refl _,fun _ a ha => absurd ha List.not_mem_nil⟩
  | cons a artifacts ih =>
    intro failed s hl
    have hla := hl a List.mem_cons_self
    refine Program.Holds.bind_run ((verifyObject_tends hS hsize hidle hla repair).mono fun out s₁ hout => ?_)
    match out with
    | .error e => exact fun n h => by cases h
    | .ok false =>
      refine (ih fun b hb => hl b (List.mem_cons_of_mem _ hb)).mono fun out s₂ hrest n h => ?_
      have hle : failed+1 ≤ n := (hrest n h).1
      exact ⟨by omega,fun hn => by omega⟩
    | .ok true =>
      refine ((ih fun b hb => hl b (List.mem_cons_of_mem _ hb)).keep (fun _ _ h => h.accepted a hla)
        (fun _ _ h => h.accepted a hla) (hout rfl)).mono fun out s₂ hrest n h => ?_
      obtain ⟨hle,hall⟩ := hrest.1 n h
      refine ⟨hle,fun hn b hb => ?_⟩
      cases hb with
      | head => exact hrest.2
      | tail _ hb => exact hall hn b hb

theorem verifyS3_tends (hS : Set.InjOn H.hex S) (hsize : ∀ body ∈ S, body.length < 2^64) (hidle : ¬ idle t)
    (hM : M.keys.Nodup) (repair : Bool) :
    (verifyS3 H U ds m repair M).run.Holds (tendSetting H S m M idle t) (fun out s' =>
      out = .ok () → ∀ a ∈ M.artifacts, Accepted m s'.bucket a) s := by
  have hl : ∀ a ∈ M.artifacts, M.Lists a := fun a ha => Manifest.lists_of_mem hM ha
  refine Program.Holds.bind_run ((verifyObjects_tends hS hsize hidle repair M.artifacts hl).mono fun out s₁ hout => ?_)
  cases out with
  | error e => exact fun h => by cases h
  | ok n =>
    dsimp only
    split
    · exact fun s₂ _ h => by cases h
    · intro s₂ hs₂ _ a ha
      exact hs₂.accepted a (hl a ha) ((hout n rfl).2 (by omega) a ha)

end tend

/-- What a thread does: verify the manifest, upload some object, or work on the cache root. -/
inductive Care
  | verify (repair : Bool)
  | upload (key : ArtifactKey) (p : Proposal) (etag : Option String)
  | operations (ops : List Operation)

namespace Care

def program (H : Sha256) (U : UrlCrate) (ds : Datastore) (m : S3Mirror) (M : Manifest) :
    Care → Program AdminCall AdminCall.Ret (Option (Except DatastoreError Unit))
  | .verify repair => (verifyS3 H U ds m repair M).run >>= fun out => .done (some out)
  | .upload key p etag => (m.upload H U key p.blob p.info etag).run.embed Admin.inS3 >>= fun _ => .done none
  | .operations ops => (runAll H U ops).embed Admin.inStore >>= fun _ => .done none

/-- What is uploaded is for artifacts of the manifest, and so is what the operations work on. -/
def Within (H : Sha256) (listed : Artifact → Prop) : Care → Prop
  | .verify _ => True
  | .upload key p _ => p.info.Suits H listed key
  | .operations ops => ∀ op ∈ ops, op.Within listed

end Care

/-- Those that tend a bucket for a manifest. A thread can be killed between any two steps. -/
def tending (H : Sha256) (U : UrlCrate) (S : Set Bytes) (ds : Datastore) (m : S3Mirror) (M : Manifest)
    (care : ThreadId → Care) : System ThreadId AdminCall AdminCall.Ret Site (Option (Except DatastoreError Unit)) where
  step t c s r s' := c.Does t s r s' ∧ s'.world.contents ⊆ S
  launch t _ p := p = (care t).program H U ds m M
  kill t s s' := s' = { s with world := s.world.release t }

section tending
variable {H : Sha256} {U : UrlCrate} {S : Set Bytes} {ds : Datastore} {m : S3Mirror} {M : Manifest}
  {care : ThreadId → Care} {s : Site}

/-- The threads that upload nothing. -/
def Indoors (care : ThreadId → Care) (t : ThreadId) : Prop := ∃ ops, care t = .operations ops

theorem care_holds (hS : Set.InjOn H.hex S) (hsize : ∀ body ∈ S, body.length < 2^64) (hM : M.keys.Nodup)
    {t : ThreadId} (hcare : (care t).Within H M.Lists) :
    ((care t).program H U ds m M).Holds (tendSetting H S m M (Indoors care) t) (fun out s' =>
      out = some (.ok ()) → ∀ a ∈ M.artifacts, Accepted m s'.bucket a) s := by
  have hidle : ∀ {c}, care t = c → (∀ ops, c ≠ .operations ops) → ¬ Indoors care t := by
    rintro c rfl hc ⟨ops,hops⟩
    exact hc ops hops
  have hlists : ∀ a ∈ M.artifacts, M.Lists a := fun a ha => Manifest.lists_of_mem hM ha
  generalize hc : care t = c at hcare
  cases c with
  | verify repair =>
    refine Program.Holds.bind ((verifyS3_tends hS hsize (hidle hc (by simp)) hM repair).mono
      fun out s₁ hout s₂ hs₂ h => ?_)
    cases h
    exact fun a ha => hs₂.accepted a (hlists a ha) (hout rfl a ha)
  | upload key p etag =>
    refine Program.Holds.bind ((tend_s3 (hidle hc (by simp)) (upload_holds hcare etag) (upload_fair hcare etag)).mono
      fun out s₁ _ s₂ _ h => ?_)
    cases h
  | operations ops =>
    have hasks : (runAll H U ops).Asks (shelfSetting H S M.Lists t) (fun _ _ => True) (fun _ _ => True) s.world :=
      runAll_shelf (fun _ _ _ => trivial) hS M.onePerKey ops hcare
    refine Program.Holds.bind ((tend_store (shelf_promises hS hasks
      ((runAll_holds ops).mono fun _ _ _ => trivial)).holds).mono fun out s₁ _ s₂ _ h => ?_)
    cases h

/-- The rely and guarantee of the threads. -/
def tendingDiscipline (hS : Set.InjOn H.hex S) (hsize : ∀ body ∈ S, body.length < 2^64) (hM : M.keys.Nodup)
    (hcare : ∀ t, (care t).Within H M.Lists) : (tending H U S ds m M care).Discipline where
  inv := Tended H S m M (Indoors care)
  rely := Meanwhile H S m M
  guar := Tends H S m M (Indoors care)
  pre _ _ := True
  post _ _ out s := out = some (.ok ()) → ∀ a ∈ M.artifacts, Accepted m s.bucket a
  rely_refl t := (tendSetting H S m M (Indoors care) t).rely_refl
  rely_trans t := (tendSetting H S m M (Indoors care) t).rely_trans
  guar_inv h := h.tended
  guar_rely := by
    intro t u s s' htu _ h
    refine ⟨?_,fun path => ⟨(h.bucket path).later,fun id up hu ho => (h.bucket path).uploads id up hu ?_,
      fun hf => hf.elim⟩,h.accepted⟩
    · rcases h.world with hw | ⟨⟨hv,c,r,hstep⟩,hpromise⟩
      · rw [hw]
        exact (shelfSetting H S M.Lists u).rely_refl _
      · exact ⟨hpromise.frame u htu.symm,hv,fun h => ⟨hpromise.consistent h.consistent,hstep.2.2⟩⟩
    · rintro rfl
      exact htu ho
  kill_inv := by
    rintro t s s' rfl h
    exact ⟨h.known.released,h.truthful,h.uploads⟩
  kill_rely := by
    rintro t u s s' htu - rfl
    exact ⟨⟨.release htu.symm,.of_index rfl,fun h => h.released⟩,fun _ => .refl _,fun _ _ h => h⟩
  pre_stable _ h := h
  launch_holds := by
    rintro t s p rfl -
    exact care_holds hS hsize hM (hcare t)

/-- Whoever tends a bucket, in any interleaving: an object that the service accepts for an artifact of the
manifest is only ever replaced by another that it accepts; and once a verification has succeeded, whether or
not it had to repair anything, the service accepts the objects of all artifacts from there on. -/
theorem verify_accepts (hS : Set.InjOn H.hex S) (hsize : ∀ body ∈ S, body.length < 2^64) (hM : M.keys.Nodup)
    (hcare : ∀ t, (care t).Within H M.Lists) (hknown : Known H S s.world)
    (hnew : ∀ path, ∀ v ∈ s.bucket.written path, v.writer = none)
    (huploads : ∀ id u, s.bucket.uploads.lookup id = some u → ∃ ops, care u.owner = .operations ops)
    {c c' : Config ThreadId AdminCall AdminCall.Ret Site (Option (Except DatastoreError Unit))}
    (hr : (tending H U S ds m M care).Reaches (System.init s) c) (hr' : (tending H U S ds m M care).Reaches c c') :
    (∀ a ∈ M.artifacts, Accepted m c.state.bucket a → Accepted m c'.state.bucket a) ∧
    ∀ t s₀, c.thread t = .finished s₀ (some (.ok ())) → ∀ a ∈ M.artifacts, Accepted m c'.state.bucket a := by
  have htended : Tended H S m M (Indoors care) s := by
    refine ⟨hknown,fun path v hv hw => ?_,fun id u hu => .inl (huploads id u hu)⟩
    rw [hnew path v hv] at hw
    cases hw
  let d : (tending H U S ds m M care).Discipline := tendingDiscipline hS hsize hM hcare
  have hsound := d.sound_of_reaches (d.sound_init htended fun _ => trivial) hr
  have hkept : ∀ a ∈ M.artifacts, Accepted m c.state.bucket a → Accepted m c'.state.bucket a := by
    intro a ha hold
    have hl : M.Lists a := Manifest.lists_of_mem hM ha
    refine d.kept_of_reaches (P := fun s => Accepted m s.bucket a) (fun t s s' _ h => h.accepted a hl) ?_ hsound
      hold hr'
    rintro t s s' - rfl
    exact id
  refine ⟨hkept,fun t s₀ ht a ha => hkept a ha ?_⟩
  have hgood := hsound.good t
  rw [ht] at hgood
  exact hgood _ (d.rely_refl t _) rfl a ha

/-- A step of thread 0 that the cache root serves with this body, or S3 at once, as long as the root holds
none but these contents. -/
def AdminCall.serve (bodies : List Bytes) (body : Bytes) :
    (c : AdminCall) → World × List (String × Version) → Option (c.Ret × World × List (String × Version))
  | .store c, (w,log) => (w.serveAmong bodies body c).map fun e => (e.1,e.2,log)
  | .s3 c, (w,log) => if w.holdsOnly bodies then (c.serve 0 log).map fun e => (e.1,w,e.2) else none
  | .manifest _, _ => none

/-- The site with this cache root and a bucket in which these versions were stored. -/
def Site.ofLog (x : World × List (String × Version)) : Site := ⟨x.1,.ofLog x.2,""⟩

theorem AdminCall.serve_does {bodies : List Bytes} {body : Bytes} (c : AdminCall)
    (x : World × List (String × Version)) (r : c.Ret) (x' : World × List (String × Version))
    (h : c.serve bodies body x = some (r,x')) :
    c.Does 0 (.ofLog x) r (.ofLog x') ∧ (Site.ofLog x').world.contents ⊆ {body | body ∈ bodies} := by
  obtain ⟨w,log⟩ := x
  cases c with
  | store c =>
    obtain ⟨⟨r',w'⟩,hserve,he⟩ := Option.map_eq_some_iff.mp h
    cases he
    obtain ⟨hserve,hholds⟩ := Option.filter_eq_some_iff.mp hserve
    exact ⟨⟨w',.inl (serve_works body c w r' w' hserve),rfl⟩,contents_of_holdsOnly hholds⟩
  | s3 c =>
    rw [AdminCall.serve] at h
    split at h
    · rename_i hholds
      obtain ⟨⟨r',log'⟩,hserve,he⟩ := Option.map_eq_some_iff.mp h
      cases he
      exact ⟨⟨_,S3Call.serve_does 0 c log r' log' hserve,rfl⟩,contents_of_holdsOnly hholds⟩
    · cases h
  | manifest c => cases h

/-- An object without content or metadata, where that of the sample artifact should be. -/
def Version.blank : Version := ⟨[],∅,"e",none⟩

/-- The sample artifact in the cache, and a blank object in the bucket. -/
def Site.spoiled : Site := .ofLog (.cached,[("abc",.blank)])

/-- `verify --repair` with the sample artifact. -/
def verifySample : Program AdminCall AdminCall.Ret (Option (Except DatastoreError Unit)) :=
  (Care.verify true).program .sample (twoHosts "a.com" "b.org") ⟨⟨"/cache"⟩,none,⟨none⟩,true,false,none⟩
    ⟨"bucket",""⟩ ⟨[.published]⟩

/-- The verification ends well and has stored an object over the blank one. -/
def verifiedSample : Bool :=
  verifySample.replays (AdminCall.serve [[0x61,0x62,0x63]] []) 100 (.cached,[("abc",.blank)]) fun out x =>
    (out.any fun answer => answer.isOk) &&
      x.2.map (fun e => (e.1,e.2.writer)) = [("abc",some 0),("abc",none)]

/-- A verification that replaces an object, and whatever happens afterwards. -/
theorem verify_accepts_replaced : let ds : Datastore := ⟨⟨"/cache"⟩,none,⟨none⟩,true,false,none⟩
    let sys := tending .sample (twoHosts "a.com" "b.org") {body | body ∈ [[0x61,0x62,0x63]]} ds ⟨"bucket",""⟩
      ⟨[.published]⟩ fun _ => .verify true
    ∃ c s₀ v, sys.Reaches (System.init .spoiled) c ∧ ¬ Accepted ⟨"bucket",""⟩ Site.spoiled.bucket .published ∧
      c.thread 0 = .finished s₀ (some (.ok ())) ∧ c.state.bucket.object "abc" = some v ∧ v.writer = some 0 ∧
      ∀ c', sys.Reaches c c' → Accepted ⟨"bucket",""⟩ c'.state.bucket .published := by
  intro ds sys
  have hverified : verifiedSample = true := by decide +kernel
  obtain ⟨out,x,hreplay,hend⟩ := Program.replay_of_replays hverified
  simp only [Bool.and_eq_true] at hend
  obtain ⟨hout,hlog⟩ := hend
  obtain ⟨answer,rfl,hok⟩ := (Option.any_eq_true _ _).mp hout
  cases answer with
  | error e => cases hok
  | ok _ =>
    obtain ⟨w,log⟩ := x
    obtain ⟨⟨path,v⟩,rest,rfl,he,-⟩ := List.map_eq_cons_iff.mp (of_decide_eq_true hlog)
    obtain ⟨rfl,hwriter⟩ := Prod.mk.inj he
    have hreach : sys.Reaches (System.init .spoiled) _ := .head (.launch (t := 0) rfl rfl)
      (System.finishes_of_replay Site.ofLog AdminCall.serve_does (Function.update_self 0 _ _) hreplay)
    have hsize : ∀ body ∈ ({body | body ∈ [[0x61,0x62,0x63]]} : Set Bytes), body.length < 2^64 := by
      intro body hbody
      rw [List.mem_singleton.mp hbody]
      decide
    have hinj : Set.InjOn Sha256.sample.hex {body : Bytes | body ∈ [[0x61,0x62,0x63]]} := by
      intro body hbody body' hbody' _
      exact (List.mem_singleton.mp hbody).trans (List.mem_singleton.mp hbody').symm
    have hcontents : World.cached.contents ⊆ {body | body ∈ [[0x61,0x62,0x63]]} :=
      contents_of_holdsOnly (by decide)
    have hnew : ∀ path, ∀ v ∈ Site.spoiled.bucket.written path, v.writer = none := by
      intro path v hv
      obtain ⟨e,he,rfl⟩ := List.mem_map.mp hv
      rw [List.mem_singleton.mp (List.mem_filter.mp he).1]
      rfl
    have hblank : ¬ Accepted ⟨"bucket",""⟩ Site.spoiled.bucket .published := by
      rintro ⟨v,info,hv,hinfo,-⟩
      have hobject : Site.spoiled.bucket.object (S3Mirror.path ⟨"bucket",""⟩ Artifact.published.key) =
        some Version.blank := rfl
      cases hobject.symm.trans hv
      cases hinfo
    have hkeys : (Manifest.keys ⟨[.published]⟩).Nodup := List.nodup_singleton _
    have hcare : ∀ _ : ThreadId, (Care.verify true).Within .sample (Manifest.Lists ⟨[.published]⟩) := fun _ => trivial
    refine ⟨_,_,v,hreach,hblank,rfl,?_,hwriter,fun c' hr' => ?_⟩
    · simp [Site.ofLog,Bucket.ofLog]
    · exact (verify_accepts hinj hsize hkeys hcare ⟨consistent_cached,hcontents⟩ hnew
        (fun id u hu => by cases hu) hreach hr').2 0 _ rfl _ List.mem_cons_self

end tending
end StarfieldDatastore
