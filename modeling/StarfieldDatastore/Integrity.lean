import StarfieldDatastore.Survey

/-! The integrity check of `verify` and the one of a local hit, against each other. -/
namespace StarfieldDatastore
open Interleaving

/-- The blob that an entry names is there, with the digest and the length recorded. -/
def Intact (H : Sha256) (w : World) (entry : IndexEntry) : Prop :=
  ∃ content, w.blobs.lookup entry.digest = some content ∧ H.hex content = entry.digest ∧
    content.length = entry.bytes

/-- What `verify` has to say of one key. -/
def World.flaw (w : World) (H : Sha256) (key : ArtifactKey) (entry : IndexEntry) : Option VerifyFailure :=
  match w.blobs.lookup entry.digest with
  | none => some ⟨key,entry.digest,none,s!"blob {entry.digest} is missing"⟩
  | some content =>
    if H.hex content ≠ entry.digest then
      some ⟨key,entry.digest,some (H.hex content),
        s!"blob hashes to {H.hex content}, index records {entry.digest}"⟩
    else if content.length ≠ entry.bytes then
      some ⟨key,entry.digest,some (H.hex content),
        s!"blob is {content.length} bytes, index records {entry.bytes}"⟩
    else none

section integrity
variable {H : Sha256} {U : UrlCrate} {t : ThreadId} {w : World} {key : ArtifactKey} {entry : IndexEntry}
  {ds : Datastore} {artifact : Artifact}

theorem flaw_none_iff (key : ArtifactKey) : w.flaw H key entry = none ↔ Intact H w entry := by
  unfold World.flaw Intact
  cases hb : w.blobs.lookup entry.digest with
  | none => simp
  | some content =>
    by_cases hhex : H.hex content = entry.digest
    · by_cases hlen : content.length = entry.bytes
      · simp [hhex,hlen]
      · simp [hhex,hlen]
    · simp [hhex]

theorem flaw_key {failure : VerifyFailure} (h : w.flaw H key entry = some failure) : failure.key = key := by
  unfold World.flaw at h
  split at h
  · cases h
    rfl
  · split at h
    · cases h
      rfl
    · split at h
      · cases h
        rfl
      · cases h

theorem look_blobLen {digest : String} {content : Bytes} (h : w.blobs.lookup digest = some content) :
    w.look (.blobLen digest) = .ok content.length := by simp only [World.look,h]

theorem look_readBlob {digest : String} {content : Bytes} (h : w.blobs.lookup digest = some content) :
    w.look (.readBlob digest) = .ok content := by simp only [World.look,h]

theorem digestFile_consult {digest : String} {content : Bytes} (h : w.blobs.lookup digest = some content) :
    (Layout.digestFile H digest).run.consult w.answer = .ok (H.hex content) := by
  rw [Layout.digestFile,consult_io_bind,look_readBlob h]
  rfl

theorem inspect_consult : (Datastore.inspect H key entry).run.consult w.answer = .ok (w.flaw H key entry) := by
  rw [Datastore.inspect,Program.consult_bind_run,Program.consult_lift_run,consult_isFile]
  cases hb : w.blobs.lookup entry.digest with
  | none =>
    simp only [World.flaw,hb]
    rfl
  | some content =>
    simp only [Option.isSome_some,Bool.not_true,Bool.false_eq_true,if_false]
    rw [consult_io_bind,look_blobLen hb]
    simp only [Program.consult_bind_run,digestFile_consult hb,World.flaw,hb]
    split
    · rfl
    · split <;> rfl

theorem inspectAll_consult (entries : List (ArtifactKey × IndexEntry)) :
    (Datastore.inspectAll H entries).run.consult w.answer = .ok (entries.filterMap fun e => w.flaw H e.1 e.2) := by
  induction entries with
  | nil => rfl
  | cons e rest ih =>
    obtain ⟨key,entry⟩ := e
    simp only [Datastore.inspectAll,Program.consult_bind_run,inspect_consult,List.filterMap_cons]
    cases w.flaw H key entry with
    | none => exact ih
    | some failure =>
      simp only [Program.consult_bind_run,ih]
      rfl

theorem verify_consult (h : Legible w) : (ds.verify H).run.consult w.answer =
    .ok (w.catalogue.filterMap fun e => w.flaw H e.1 e.2) := by
  simp only [Datastore.verify,Program.consult_bind_run,entries_consult h,inspectAll_consult]

/-- `verify` reports a key exactly when the blob of its entry is not intact. -/
theorem reported_iff (hkey : w.entryAt key = some entry) :
    (∃ failure ∈ w.catalogue.filterMap (fun e => w.flaw H e.1 e.2), failure.key = key) ↔ ¬ Intact H w entry := by
  rw [← flaw_none_iff key]
  constructor
  · rintro ⟨failure,hmem,hf⟩ hnone
    obtain ⟨⟨key',entry'⟩,hmem,hflaw⟩ := List.mem_filterMap.mp hmem
    obtain rfl := (flaw_key hflaw).symm.trans hf
    rw [mem_catalogue,hkey] at hmem
    cases hmem
    rw [hnone] at hflaw
    cases hflaw
  · intro hne
    obtain ⟨failure,hflaw⟩ := Option.ne_none_iff_exists'.mp hne
    exact ⟨failure,List.mem_filterMap.mpr ⟨(key,entry),mem_catalogue.mpr hkey,hflaw⟩,flaw_key hflaw⟩

theorem validate_consult (artifact : Artifact) {content : Bytes} {digest : String} (hb : w.blobs.lookup digest = some content) :
    (validate H artifact (.readBlob digest) id content.length (H.hex content)).run.consult w.answer = .ok () ↔
      artifact.Wants H content := by
  rw [wants_iff,validate,Program.consult_bind_run,Program.consult_lift_except]
  cases hpins : validatePins artifact content.length (H.hex content) with
  | error e => simp
  | ok passed =>
    have hread : (fs (.readBlob digest)).consult w.answer = .ok content := look_readBlob hb
    simp only [Program.consult_bind_run,Program.consult_lift_run,hread,Program.consult_lift_except,true_and]
    change rejectFailure artifact (artifact.check.withoutSha256.checkFile H content) = .ok () ↔ _
    cases hcheck : artifact.check.withoutSha256.checkFile H content with
    | ok passed => simp [rejectFailure]
    | error failure => simp [rejectFailure]

/-- A local hit is served exactly when the blob is intact and the artifact asks for it. -/
theorem localHit_serves : (∃ path, (Datastore.localHit H artifact entry).run.consult w.answer = .ok (some path)) ↔
    Intact H w entry ∧ ∃ content, w.blobs.lookup entry.digest = some content ∧ artifact.Wants H content := by
  rw [Datastore.localHit,Program.consult_bind_run,Program.consult_lift_run,consult_isFile]
  cases hb : w.blobs.lookup entry.digest with
  | none =>
    simp only [Option.isSome_none,Bool.not_false,if_true]
    simp [Intact,hb]
  | some content =>
    simp only [Option.isSome_some,Bool.not_true,Bool.false_eq_true,if_false]
    by_cases hpins : artifact.check.pinnedSha256s.any (· ≠ entry.digest) = true
    · rw [if_pos hpins]
      refine ⟨fun ⟨_,h⟩ => (by cases h),fun ⟨⟨found,hfound,hhex,_⟩,body,hbody,hwants⟩ => ?_⟩
      cases hbody
      cases hb.symm.trans hfound
      obtain ⟨pin,hmem,hne⟩ := List.any_eq_true.mp hpins
      have := (validatePins_iff.mp (wants_iff.mp hwants).1).2 pin hmem
      simp [this,hhex] at hne
    · rw [if_neg hpins,consult_io_bind,look_blobLen hb]
      by_cases hlen : content.length = entry.bytes
      · simp only [hlen,ne_eq,not_true_eq_false,if_false,Program.consult_bind_run,digestFile_consult hb]
        by_cases hhex : H.hex content = entry.digest
        · have hvalid := validate_consult artifact hb (H := H)
          rw [hlen] at hvalid
          rw [if_neg (not_not.mpr hhex)]
          simp only [Program.consult_bind_run]
          cases hv : (validate H artifact (.readBlob entry.digest) id entry.bytes (H.hex content)).run.consult
              w.answer with
          | ok passed =>
            refine ⟨fun _ => ⟨⟨content,hb,hhex,hlen⟩,content,rfl,hvalid.mp hv⟩,fun _ => ⟨_,rfl⟩⟩
          | error e =>
            refine ⟨fun ⟨_,h⟩ => (by cases h),fun ⟨_,body,hbody,hwants⟩ => ?_⟩
            cases hbody
            rw [hvalid.mpr hwants] at hv
            cases hv
        · rw [if_pos hhex]
          refine ⟨fun ⟨_,h⟩ => (by cases h),fun ⟨⟨found,hfound,hhex',_⟩,_⟩ => ?_⟩
          cases hb.symm.trans hfound
          exact absurd hhex' hhex
      · simp only [ne_eq,hlen,not_false_eq_true,if_true,Program.consult_bind_run,Program.consult_throw_run]
        refine ⟨fun ⟨_,h⟩ => (by cases h),fun ⟨⟨found,hfound,_,hlen'⟩,_⟩ => ?_⟩
        cases hb.symm.trans hfound
        exact absurd hlen' hlen

theorem lookupLocal_serves (ds : Datastore) (h : w.Readable artifact.key) (hkey : w.entryAt artifact.key = some entry) :
    (∃ found, (ds.lookupLocal H artifact).run.consult w.answer = .ok (some found)) ↔
      Intact H w entry ∧ ∃ content, w.blobs.lookup entry.digest = some content ∧ artifact.Wants H content := by
  rw [← localHit_serves,Datastore.lookupLocal,Program.consult_bind_run,
    readEntry_readable ds.layout h,hkey]
  simp only [Program.consult_bind_run]
  cases hl : (Datastore.localHit H artifact entry).run.consult w.answer with
  | error e => simp
  | ok found => cases found <;> simp

theorem answer_setLock (name : String) (o : Option ThreadId) : (w.setLock name o).answer = w.answer := by
  funext c
  cases c with
  | fs c => cases c <;> rfl
  | net c => cases c <;> rfl
  | cache c => cases c <;> rfl

/-- An operation under a free lock. -/
theorem withLock_total {α : Type} {name : String} {body : Op α} {Q : Except DatastoreError α → World → Prop}
    (hfree : w.locks name = none) (h : body.run.Total (Call.Works t)
      (fun out w' => w'.locks name = some t ∧ Q out (w'.setLock name none)) (w.setLock name (some t))) :
    (withLock name body).run.Total (Call.Works t) Q w := by
  have hlock : ∀ x, w.runFs t (.lock name) x = some (.ok (),w.setLock name (some t)) := by
    intro x
    simp only [World.runFs,hfree,if_true]
  refine total_works_io (.ok ()) hlock (Program.Total.bind (h.mono ?_))
  rintro out u ⟨hheld,hQ⟩
  have hunlock : ∀ x, u.runFs t (.unlock name) x = some (.ok (),u.setLock name none) := by
    intro x
    simp only [World.runFs,hheld,if_true]
  exact total_works (.ok ()) hunlock hQ

theorem setLock_free {name : String} (hfree : w.locks name = none) (o : Option ThreadId) :
    (w.setLock name o).setLock name none = w := by
  simp only [World.setLock,Function.update_idem]
  rw [Function.update_eq_self_iff.mpr hfree.symm]

/-- An offline `get` succeeds exactly when the blob is intact and the artifact asks for it;
it changes nothing. -/
theorem get_offline (h : w.Readable artifact.key) (hkey : w.entryAt artifact.key = some entry) (hoff : ds.offline = true)
    (hfree : w.locks (Layout.keyLockName H artifact.key) = none) :
    (ds.get H U artifact).run.Total (Call.Works t) (fun out w' => w' = w ∧ ((∃ path, out = .ok path) ↔
      Intact H w entry ∧ ∃ content, w.blobs.lookup entry.digest = some content ∧ artifact.Wants H content)) w := by
  have hserves := lookupLocal_serves ds h hkey (H := H)
  refine Program.Total.bind_run (withLock_total hfree (Program.Total.bind_run
    ((total_looks (lookupLocal_only fun _ hc => hc)).mono ?_)))
  rintro out u ⟨hout,rfl⟩
  rw [answer_setLock] at hout
  have hheld : (w.setLock (Layout.keyLockName H artifact.key) (some t)).locks
      (Layout.keyLockName H artifact.key) = some t := Function.update_self _ _ _
  have hback := setLock_free hfree (some t)
  rw [← hserves,← hout]
  cases out with
  | error e => exact ⟨hheld,hback,by simp⟩
  | ok found =>
    cases found with
    | some found => exact ⟨hheld,hback,by simp⟩
    | none =>
      simp only [hoff,if_true]
      exact ⟨hheld,hback,by simp⟩

/-- `verify` reports a key exactly when its blob is missing, hashes otherwise or has another
length. For an artifact whose pins and check accept the blob an offline `get` succeeds
exactly when it does not; for any other a `get` that succeeds means that it does not. -/
theorem verify_reports_refused (h : Legible w) (hkey : w.entryAt key = some entry) (hoff : ds.offline = true)
    (hfree : w.locks (Layout.keyLockName H key) = none) :
    ∃ failures, (ds.verify H).run.Total (Call.Works t) (fun out w' => out = .ok failures ∧ w' = w) w ∧
      ((∃ failure ∈ failures, failure.key = key) ↔
        ¬ ∃ content, w.blobs.lookup entry.digest = some content ∧ H.hex content = entry.digest ∧
          content.length = entry.bytes) ∧
      ∀ artifact, artifact.key = key → (ds.get H U artifact).run.Total (Call.Works t) (fun out w' => w' = w ∧
        ((∃ path, out = .ok path) → ¬ ∃ failure ∈ failures, failure.key = key) ∧
        ((∀ pin ∈ artifact.check.pinnedSha256s, pin = entry.digest) →
          (∀ content, w.blobs.lookup entry.digest = some content →
            (∀ n, artifact.expectedBytes = some n → n = content.length) ∧
              artifact.check.check H content = .ok ()) →
          ((∃ path, out = .ok path) ↔ ¬ ∃ failure ∈ failures, failure.key = key))) w := by
  have hreported := reported_iff (H := H) hkey
  refine ⟨w.catalogue.filterMap fun e => w.flaw H e.1 e.2,?_,hreported,?_⟩
  · refine (total_looks (verify_only fun _ hc => hc)).mono ?_
    rintro out u ⟨rfl,rfl⟩
    exact ⟨verify_consult h,rfl⟩
  · rintro artifact rfl
    refine (get_offline (h _ (listed_of_entryAt hkey)) hkey hoff hfree).mono ?_
    rintro out u ⟨rfl,hout⟩
    rw [hreported,not_not,hout]
    refine ⟨rfl,fun hserved => hserved.1,fun hpins haccepts => ⟨fun hserved => hserved.1,fun hintact => ⟨hintact,?_⟩⟩⟩
    obtain ⟨content,hb,-,-⟩ := hintact
    obtain ⟨hsize,hcheck⟩ := haccepts content hb
    exact ⟨content,hb,hsize,ContentCheck.check_iff.mp hcheck⟩

end integrity

/-- A damaged blob that two keys share is reported for either, and is not served. -/
theorem verify_reports_refused_damaged : ∃ failures,
    (Datastore.verify .sample .alone).run.Total (Call.Works 0) (fun out w' => out = .ok failures ∧ w' = .damaged)
      .damaged ∧ (∃ failure ∈ failures, failure.key = Artifact.sample.key) ∧
    (Datastore.alone.get .sample (twoHosts "a.com" "b.org") .sample).run.Total (Call.Works 0) (fun out w' =>
      w' = .damaged ∧ ¬ ∃ path, out = .ok path) .damaged := by
  have hlegible : Legible .damaged := legible_of_entries (by decide +kernel)
  have hkey : World.damaged.entryAt Artifact.sample.key =
      some ⟨Sha256.sample.hex [0x61,0x62,0x63],3,1,none,none,none,.localDisk⟩ := rfl
  have hblob : World.damaged.blobs.lookup (Sha256.sample.hex [0x61,0x62,0x63]) = some [] := rfl
  obtain ⟨failures,hverify,hreported,hget⟩ := verify_reports_refused (H := .sample) (U := twoHosts "a.com" "b.org")
    (t := 0) hlegible hkey (rfl : Datastore.alone.offline = true) rfl
  have hfails : ∃ failure ∈ failures, failure.key = Artifact.sample.key := by
    refine hreported.mpr ?_
    rintro ⟨content,hl,-,hlength⟩
    rw [hblob] at hl
    cases hl
    cases hlength
  exact ⟨failures,hverify,hfails,(hget .sample rfl).mono fun out w' h => ⟨h.1,fun hserved => h.2.1 hserved hfails⟩⟩

end StarfieldDatastore
