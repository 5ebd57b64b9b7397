import StarfieldDatastore.Interleaving.Earning
import StarfieldDatastore.Admin
import StarfieldDatastore.UploadRace

/-! What multipart uploads leave in a bucket. An upload that is neither completed nor aborted
is stored, and paid for, until somebody removes it. -/
namespace StarfieldDatastore
open Interleaving

/-- A bucket and the ids of the uploads that nobody can end any more. -/
structure Tally where
  bucket : Bucket
  lost : Set String

/-- Caller `t` has an upload in progress. -/
def Bucket.Owns (b : Bucket) (t : ThreadId) (id : String) : Prop := ∃ u, b.uploads.lookup id = some u ∧ u.owner = t

/-- A request that loses an upload: its creator is not told the id, or its abort is not carried out. -/
inductive S3Call.Loses (b b' : Bucket) (id : String) : (c : S3Call) → c.Ret → Prop
  | untold {path metadata} {r : Except ServiceFailure (Option String)} (fresh : b.uploads.lookup id = none)
      (there : (b'.uploads.lookup id).isSome) (untold : r ≠ .ok (some id)) :
      Loses b b' id (.createUpload path metadata) r
  | unaborted {path} (there : (b'.uploads.lookup id).isSome) : Loses b b' id (.abortUpload path id) ()

/-- What a request does to the bucket and to the tally of what is lost. -/
structure S3Call.Tallied (t : ThreadId) (c : S3Call) (s : Tally) (r : c.Ret) (s' : Tally) : Prop where
  does : c.Does t s.bucket r s'.bucket
  lost : s'.lost = s.lost ∪ { id | c.Loses s.bucket s'.bucket id r }

namespace Tally

/-- The uploads that `t` has in progress are lost, but for the one that it is working on. -/
def Accounts (t : ThreadId) (current : Option String) (s : Tally) : Prop :=
  ∀ id, s.bucket.Owns t id → id ∈ s.lost ∨ current = some id

/-- At most one of the uploads that `t` has in progress is not lost. -/
def Single (t : ThreadId) (s : Tally) : Prop :=
  ∀ id id', s.bucket.Owns t id → s.bucket.Owns t id' → id ∉ s.lost → id' ∉ s.lost → id = id'

/-- What the others may do meanwhile. -/
structure Beside (t : ThreadId) (s s' : Tally) : Prop where
  owns : ∀ id, s'.bucket.Owns t id → s.bucket.Owns t id
  lost : s.lost ⊆ s'.lost

/-- What caller `t` does. -/
structure Within (t : ThreadId) (s s' : Tally) : Prop where
  others : ∀ u, u ≠ t → s.Beside u s'
  single : s'.Single t

theorem Beside.refl (t : ThreadId) (s : Tally) : s.Beside t s := ⟨fun _ h => h,fun _ h => h⟩

theorem Beside.trans {t : ThreadId} {s s' s'' : Tally} (h : s.Beside t s') (h' : s'.Beside t s'') :
    s.Beside t s'' :=
  ⟨fun id ho => h.owns id (h'.owns id ho),h.lost.trans h'.lost⟩

theorem Accounts.stable {t : ThreadId} {current : Option String} {s s' : Tally} (h : s.Accounts t current)
    (hs : s.Beside t s') : s'.Accounts t current :=
  fun id ho => (h id (hs.owns id ho)).imp_left fun hl => hs.lost hl

theorem Accounts.single {t : ThreadId} {current : Option String} {s : Tally} (h : s.Accounts t current) :
    s.Single t := by
  intro id id' ho ho' hl hl'
  have hid := (h id ho).resolve_left hl
  have hid' := (h id' ho').resolve_left hl'
  exact Option.some.inj (hid.symm.trans hid')

theorem Accounts.none {t : ThreadId} {current : Option String} {s : Tally} (h : s.Accounts t none) :
    s.Accounts t current :=
  fun id ho => .inl ((h id ho).resolve_right fun h => by cases h)

end Tally

/-- One caller among others. -/
def tallying (t : ThreadId) : Setting S3Call S3Call.Ret Tally where
  step := S3Call.Tallied t
  rely := Tally.Beside t
  guar := Tally.Within t
  rely_refl := .refl t
  rely_trans := .trans

section steps
variable {t : ThreadId} {s s' : Tally} {current : Option String}

/-- Only a creation adds an upload, and it is its caller's. -/
theorem S3Call.Does.owns {c : S3Call} {b b' : Bucket} {r : c.Ret} (h : c.Does t b r b') {u : ThreadId}
    {id : String} (ho : b'.Owns u id) : b.Owns u id ∨
      ∃ path metadata, c = .createUpload path metadata ∧ u = t ∧ b.uploads.lookup id = none := by
  obtain ⟨up,hup,howner⟩ := ho
  cases h with
  | create fresh answer =>
    rename_i path metadata id' r
    by_cases hid : id = id'
    · subst hid
      rw [AList.lookup_insert] at hup
      cases hup
      exact .inr ⟨path,metadata,rfl,howner.symm,fresh⟩
    · rw [AList.lookup_insert_ne hid] at hup
      exact .inl ⟨up,hup,howner⟩
  | part found own same =>
    rename_i path id' number body u' r
    by_cases hid : id = id'
    · subst hid
      rw [AList.lookup_insert] at hup
      cases hup
      exact .inl ⟨u',found,howner⟩
    · rw [AList.lookup_insert_ne hid] at hup
      exact .inl ⟨up,hup,howner⟩
  | complete found own same whole met fresh answer =>
    rename_i path id' parts cond etag body u' r
    by_cases hid : id = id'
    · subst hid
      simp at hup
    · rw [AList.lookup_erase_ne hid] at hup
      exact .inl ⟨up,hup,howner⟩
  | abort found own =>
    rename_i path id' u'
    by_cases hid : id = id'
    · subst hid
      simp at hup
    · rw [AList.lookup_erase_ne hid] at hup
      exact .inl ⟨up,hup,howner⟩
  | _ => exact .inl ⟨up,hup,howner⟩

theorem S3Call.Tallied.lost_subset {c : S3Call} {r : c.Ret} (h : c.Tallied t s r s') : s.lost ⊆ s'.lost := by
  rw [h.lost]
  exact Set.subset_union_left

/-- Nobody touches the uploads of another caller. -/
theorem S3Call.Tallied.others {c : S3Call} {r : c.Ret} (h : c.Tallied t s r s') (u : ThreadId) (hu : u ≠ t) :
    s.Beside u s' := by
  refine ⟨fun id ho => ?_,h.lost_subset⟩
  rcases h.does.owns ho with ho | ⟨-,-,-,hut,-⟩
  · exact ho
  · exact absurd hut hu

theorem S3Call.Tallied.within {c : S3Call} {r : c.Ret} (h : c.Tallied t s r s') (ha : s'.Accounts t current) :
    s.Within t s' := ⟨h.others,ha.single⟩

/-- Every request but a creation. -/
def S3Call.creates : S3Call → Bool
  | .createUpload _ _ => true
  | _ => false

theorem S3Call.Tallied.accounts {c : S3Call} {r : c.Ret} (h : c.Tallied t s r s') (hc : c.creates = false)
    (ha : s.Accounts t current) : s'.Accounts t current := by
  intro id ho
  rcases h.does.owns ho with ho | ⟨path,metadata,rfl,-⟩
  · exact (ha id ho).imp_left fun hl => h.lost_subset hl
  · cases hc

/-- A creation adds the upload whose id it returns, or loses the one that it has made. -/
theorem S3Call.Tallied.created {path : String} {metadata : UserMetadata}
    {r : Except ServiceFailure (Option String)} (h : (S3Call.createUpload path metadata).Tallied t s r s')
    (ha : s.Accounts t none) :
    (∀ id, r = .ok (some id) → s'.Accounts t (some id)) ∧
      ((∀ id, r ≠ .ok (some id)) → s'.Accounts t none) := by
  have hnew : ∀ id, s'.bucket.Owns t id → id ∈ s'.lost ∨ r = .ok (some id) := by
    intro id ho
    rcases h.does.owns ho with hold | ⟨-,-,-,-,hfresh⟩
    · exact .inl (h.lost_subset ((ha id hold).resolve_right fun h => by cases h))
    · by_cases hr : r = .ok (some id)
      · exact .inr hr
      · obtain ⟨up,hup,-⟩ := ho
        rw [h.lost]
        exact .inl (.inr (.untold hfresh (by rw [hup]; rfl) hr))
  refine ⟨fun id hr id' ho => (hnew id' ho).imp_right fun hr' => ?_,fun hr id ho => ?_⟩
  · rw [hr] at hr'
    cases hr'
    rfl
  · exact .inl ((hnew id ho).resolve_right (hr id))

/-- An abort ends the upload or loses it. -/
theorem S3Call.Tallied.aborted {path id : String} {r : Unit} (h : (S3Call.abortUpload path id).Tallied t s r s')
    (ha : s.Accounts t (some id)) : s'.Accounts t none := by
  intro id' ho
  rcases h.accounts rfl ha id' ho with hl | hid
  · exact .inl hl
  · cases hid
    obtain ⟨up,hup,-⟩ := ho
    rw [h.lost]
    exact .inl (.inr (.unaborted (by rw [hup]; rfl)))

/-- A completion that is confirmed ends the upload. -/
theorem S3Call.Tallied.completed {path id : String} {parts : List CompletedPart} {cond : Condition}
    (h : (S3Call.completeUpload path id parts cond).Tallied t s (.ok ()) s') (ha : s.Accounts t (some id)) :
    s'.Accounts t none := by
  intro id' ho
  rcases h.accounts rfl ha id' ho with hl | hid
  · exact .inl hl
  · cases hid
    obtain ⟨up,hup,-⟩ := ho
    have hdoes := h.does
    generalize s'.bucket = b' at hdoes hup
    cases hdoes with
    | complete => simp at hup

end steps

section uploads
variable {H : Sha256} {U : UrlCrate} {m : S3Mirror} {key : ArtifactKey} {t : ThreadId} {s : Tally}
  {current : Option String} {info : MirrorObject} {blob : Bytes} {metadata : UserMetadata}
  {expected : Option String} {α : Type}

/-- Requests that create nothing. -/
theorem uncreating_holds {p : Program S3Call S3Call.Ret α} (hp : p.Only fun c => c.creates = false)
    (ha : s.Accounts t current) : p.Holds (tallying t) (fun _ s' => s'.Accounts t current) s := by
  refine Program.Holds.of_only hp (fun s s' hs ha => ha.stable hs) (fun c s r s' hc ha hstep => ?_) ha
  have ha' := hstep.accounts hc ha
  exact ⟨hstep.within ha',ha'⟩

theorem existingAfterRace_returns : (m.existingAfterRace key info).run.Returns (· ≠ .ok .stored) := by
  refine .bind_run (.of_all fun found => ?_)
  cases found with
  | error e => exact fun h => by cases h
  | ok found =>
    cases found with
    | none => exact fun h => by cases h
    | some existing =>
      change matchingExisting existing info ≠ .ok .stored
      unfold matchingExisting
      split
      · exact fun h => by cases h
      · exact fun h => by cases h

/-- An upload that is reported as stored has ended. -/
def Tally.Ends (t : ThreadId) (id : String) (out : Except DatastoreError PutOutcome) (s : Tally) : Prop :=
  s.Accounts t (some id) ∧ (out = .ok .stored → s.Accounts t none)

theorem Tally.Ends.of_ne {id : String} {out : Except DatastoreError PutOutcome} (ha : s.Accounts t (some id))
    (hout : out ≠ .ok .stored) : s.Ends t id out := ⟨ha,fun h => absurd h hout⟩

theorem uploadAll_tallies {id : String} (ha : s.Accounts t (some id)) :
    (m.uploadAll key blob info id expected).run.Holds (tallying t) (fun out s' => s'.Ends t id out) s := by
  have hparts : (m.uploadParts key blob info.bytes id info.bytes 0 []).run.Only fun c => c.creates = false :=
    uploadParts_admits (P := fun c => c.creates = false) rfl (fun _ _ => rfl) _
  refine Program.Holds.bind_run ((uncreating_holds hparts ha).mono fun parts s₁ ha => ?_)
  cases parts with
  | error e => exact .of_ne ha fun h => by cases h
  | ok parts =>
    refine Program.Holds.bind_run (Program.Holds.perform_bind fun s₂ hs₂ r s₃ hstep => ?_)
    have ha := ha.stable hs₂
    have ha₃ := hstep.accounts rfl ha
    refine ⟨hstep.within ha₃,fun s₄ hs₄ => ?_⟩
    cases r with
    | ok _ =>
      have hended := (hstep.completed ha).stable hs₄
      exact fun s₅ hs₅ => ⟨(hended.stable hs₅).none,fun _ => hended.stable hs₅⟩
    | error f =>
      simp only
      split
      · exact ((uncreating_holds (existingAfterRace_admits rfl) (ha₃.stable hs₄)).returns
          existingAfterRace_returns).mono fun out s₅ h => .of_ne h.1 h.2
      · exact fun s₅ hs₅ => .of_ne ((ha₃.stable hs₄).stable hs₅) fun h => by cases h

/-- A multipart upload ends what it has begun, or loses it. -/
theorem multipart_tallies (ha : s.Accounts t none) :
    (m.multipart key blob info metadata expected).run.Holds (tallying t) (fun _ s' => s'.Accounts t none) s := by
  refine Program.Holds.bind_run (Program.Holds.perform_bind fun s₁ hs₁ r s₂ hstep => ?_)
  obtain ⟨htold,huntold⟩ := hstep.created (ha.stable hs₁)
  cases r with
  | error f =>
    have ha₂ := huntold fun _ h => by cases h
    exact ⟨hstep.within ha₂,fun s₃ hs₃ s₄ hs₄ => (ha₂.stable hs₃).stable hs₄⟩
  | ok created =>
    cases created with
    | none =>
      have ha₂ := huntold fun _ h => by cases h
      exact ⟨hstep.within ha₂,fun s₃ hs₃ s₄ hs₄ => (ha₂.stable hs₃).stable hs₄⟩
    | some id =>
      have ha₂ := htold id rfl
      refine ⟨hstep.within ha₂,fun s₃ hs₃ => ?_⟩
      refine Program.Holds.bind ((uploadAll_tallies (ha₂.stable hs₃)).mono fun result s₄ hends => ?_)
      have habort : (s3 (.abortUpload (m.path key) id) >>= fun _ => pure result).Holds (tallying t)
          (fun _ s' => s'.Accounts t none) s₄ := by
        refine Program.Holds.perform_bind fun s₅ hs₅ r s₆ hstep => ?_
        have ha₆ := hstep.aborted (hends.1.stable hs₅)
        exact ⟨hstep.within ha₆,fun s₇ hs₇ => ha₆.stable hs₇⟩
      cases result with
      | error e => exact habort
      | ok outcome =>
        cases outcome with
        | stored => exact fun s₅ hs₅ => (hends.2 rfl).stable hs₅
        | alreadyPresent => exact habort

theorem write_tallies (ha : s.Accounts t none) :
    (m.write H U key blob info expected).run.Holds (tallying t) (fun _ s' => s'.Accounts t none) s := by
  refine Program.Holds.except_bind (fun _ _ => ?_) fun _ _ s₁ hs₁ => ha.stable hs₁
  have hmatches : (S3Mirror.localMatches H blob info).run.Only fun c => c.creates = false := by
    refine .bind_run (file_admits rfl) fun _ => ?_
    split
    · trivial
    · exact .bind_run (file_admits rfl) fun _ => trivial
  refine Program.Holds.bind_run ((uncreating_holds hmatches ha).mono fun matching s₁ ha => ?_)
  cases matching with
  | error e => exact ha
  | ok agrees =>
    cases agrees with
    | false => exact fun s₂ hs₂ => ha.stable hs₂
    | true =>
      refine Program.Holds.except_bind (fun metadata _ => ?_) fun _ _ s₂ hs₂ => ha.stable hs₂
      have hrest : ∀ s, s.Accounts t none →
          (if info.bytes > partBytes then m.multipart key blob info metadata expected
            else m.putObject key blob info metadata expected 2).run.Holds (tallying t)
              (fun _ s' => s'.Accounts t none) s := by
        intro s ha
        split
        · exact multipart_tallies ha
        · have hput : (m.putObject key blob info metadata expected 2).run.Only fun c => c.creates = false :=
            putObject_admits (P := fun c => c.creates = false) rfl rfl (fun _ => rfl) 2
          exact uncreating_holds hput ha
      cases expected with
      | some etag => exact hrest _ ha
      | none =>
        refine Program.Holds.bind_run ((uncreating_holds (head_admits rfl) ha).mono fun found s₂ ha => ?_)
        cases found with
        | error e => exact ha
        | ok found =>
          cases found with
          | none => exact hrest _ ha
          | some existing => exact fun s₃ hs₃ => ha.stable hs₃

end uploads

/-- What a caller asks of the mirror. -/
inductive MirrorJob
  | change (key : ArtifactKey) (job : S3Job)
  | head (key : ArtifactKey)
  | observedEtag (key : ArtifactKey)
  | fetch (key : ArtifactKey)

section callers
variable (H : Sha256) (U : UrlCrate) (m : S3Mirror)

def MirrorJob.run : MirrorJob → Program S3Call S3Call.Ret Unit
  | .change key job => job.program H U m key >>= fun _ => .done ()
  | .head key => (m.head key).run >>= fun _ => .done ()
  | .observedEtag key => (m.observedEtag key).run >>= fun _ => .done ()
  | .fetch key => (m.fetch key).run >>= fun _ => .done ()

def runMirror : List MirrorJob → Program S3Call S3Call.Ret Unit
  | [] => .done ()
  | job :: jobs => job.run H U m >>= fun _ => runMirror jobs

/-- Any number of callers, each with jobs that it does one after the other. One that dies leaves
its uploads as they are. -/
def callers (jobs : ThreadId → List MirrorJob) : System ThreadId S3Call S3Call.Ret Tally Unit where
  step := S3Call.Tallied
  launch t _ p := p = runMirror H U m (jobs t)
  kill _ s s' := s' = s

end callers

section runs
variable {H : Sha256} {U : UrlCrate} {m : S3Mirror} {t : ThreadId} {s : Tally}

theorem program_tallies (key : ArtifactKey) (job : S3Job) (ha : s.Accounts t none) :
    (job.program H U m key).Holds (tallying t) (fun _ s' => s'.Accounts t none) s := by
  cases job with
  | put p => exact Program.Holds.bind ((write_tallies ha).mono fun _ s₁ ha s₂ hs₂ => ha.stable hs₂)
  | replace p etag =>
    refine Program.Holds.bind (?_ : (m.replace H U key p.blob p.info etag).run.Holds _ _ _)
    unfold S3Mirror.replace
    split
    · exact fun s₁ hs₁ s₂ hs₂ => (ha.stable hs₁).stable hs₂
    · exact (write_tallies ha).mono fun _ s₁ ha s₂ hs₂ => ha.stable hs₂
  | delete =>
    have honly : (S3Job.delete.program H U m key).Only fun c => c.creates = false := ⟨rfl,fun _ => trivial⟩
    exact uncreating_holds honly ha

theorem job_tallies (job : MirrorJob) (ha : s.Accounts t none) :
    (job.run H U m).Holds (tallying t) (fun _ s' => s'.Accounts t none) s := by
  have hlook : ∀ {α : Type} (p : Program S3Call S3Call.Ret α), (p.Only fun c => c.creates = false) →
      (p >>= fun _ => Program.done ()).Holds (tallying t) (fun _ s' => s'.Accounts t none) s :=
    fun p hp => uncreating_holds (hp.bind fun _ => trivial) ha
  cases job with
  | change key job =>
    exact Program.Holds.bind ((program_tallies key job ha).mono fun _ s₁ ha s₂ hs₂ => ha.stable hs₂)
  | head key => exact hlook _ (head_admits rfl)
  | observedEtag key => exact hlook _ (observedEtag_admits rfl)
  | fetch key => exact hlook _ (fetch_admits (P := fun c => c.creates = false) rfl rfl)

theorem runMirror_tallies (jobs : List MirrorJob) (ha : s.Accounts t none) :
    (runMirror H U m jobs).Holds (tallying t) (fun _ s' => s'.Accounts t none) s := by
  induction jobs generalizing s with
  | nil => exact fun s₁ hs₁ => ha.stable hs₁
  | cons job jobs ih => exact Program.Holds.bind ((job_tallies job ha).mono fun _ s₁ ha => ih ha)

theorem Tally.Single.stable {s' : Tally} (h : s.Single t) (hs : s.Beside t s') : s'.Single t := by
  intro id id' ho ho' hl hl'
  exact h id id' (hs.owns id ho) (hs.owns id' ho') (fun h => hl (hs.lost h)) fun h => hl' (hs.lost h)

/-- What the callers keep, each for itself and for the others. -/
def callersDiscipline (H : Sha256) (U : UrlCrate) (m : S3Mirror) (jobs : ThreadId → List MirrorJob) :
    (callers H U m jobs).Discipline where
  inv s := ∀ t, s.Single t
  rely t := Tally.Beside t
  guar t := Tally.Within t
  pre t s := s.Accounts t none
  post t _ _ s := s.Accounts t none
  rely_refl := .refl
  rely_trans _ := .trans
  guar_inv {t s s'} h hinv u := by
    by_cases hu : u = t
    · subst hu
      exact h.single
    · exact (hinv u).stable (h.others u hu)
  guar_rely htu _ h := h.others _ (Ne.symm htu)
  kill_inv h hinv := by
    rw [h]
    exact hinv
  kill_rely _ _ h := by
    rw [h]
    exact .refl _ _
  pre_stable h ha := ha.stable h
  launch_holds {t s p} h ha := by
    rw [h]
    exact (runMirror_tallies (jobs t) ha).weaken (fun _ _ h => h) (fun _ _ _ _ h => h.2) fun _ _ h => h

/-- A bucket whose uploads in progress are none of the callers' business. -/
def Bucket.tally (b : Bucket) : Tally := ⟨b,{ id | (b.uploads.lookup id).isSome }⟩

/-- However the requests of the callers interleave and whichever of them fail: an upload in
progress that was not there at first, whose creator was told its id and whose abort has not
failed, belongs to a caller that is still at work or was killed, and a caller has at most one. -/
theorem uploads_ended {jobs : ThreadId → List MirrorJob} {b₀ : Bucket}
    {c : Config ThreadId S3Call S3Call.Ret Tally Unit} (hr : (callers H U m jobs).Reaches (System.init b₀.tally) c) :
    (∀ id u, c.state.bucket.uploads.lookup id = some u → id ∉ c.state.lost →
      (∃ s₀ p, c.thread u.owner = .running s₀ p) ∨ c.thread u.owner = .killed) ∧
    ∀ id id' u u', c.state.bucket.uploads.lookup id = some u → c.state.bucket.uploads.lookup id' = some u' →
      u.owner = u'.owner → id ∉ c.state.lost → id' ∉ c.state.lost → id = id' := by
  have haccounts : ∀ t, b₀.tally.Accounts t none := by
    rintro t id ⟨u,hu,-⟩
    left
    change (b₀.uploads.lookup id).isSome = true
    change b₀.uploads.lookup id = some u at hu
    rw [hu]
    rfl
  have hsound := (callersDiscipline H U m jobs).sound_of_reaches
    ((callersDiscipline H U m jobs).sound_init (fun t => (haccounts t).single) haccounts) hr
  constructor
  · intro id u hu hlost
    have hgood := hsound.good u.owner
    have hnone : ¬ c.state.Accounts u.owner none := fun h =>
      (h id ⟨u,hu,rfl⟩).elim hlost fun h => by cases h
    cases hstatus : c.thread u.owner with
    | fresh =>
      rw [hstatus] at hgood
      exact absurd hgood hnone
    | running s₀ p => exact .inl ⟨s₀,p,rfl⟩
    | finished s₀ a =>
      rw [hstatus] at hgood
      exact absurd (hgood _ (.refl _ _)) hnone
    | killed => exact .inr rfl
  · intro id id' u u' hu hu' howner hl hl'
    exact hsound.inv u.owner id id' ⟨u,hu,rfl⟩ ⟨u',hu',howner.symm⟩ hl hl'

end runs

section sample
variable {H : Sha256} {U : UrlCrate} {m : S3Mirror} {key : ArtifactKey} {blob : Bytes} {info : MirrorObject}
  {metadata : UserMetadata} {s s₁ s₂ : Tally} {id : String}

/-- A multipart upload whose file cannot be read for the first part. -/
theorem multipart_unread (hsize : 0 < info.bytes)
    (hcreate : (S3Call.createUpload (m.path key) metadata).Tallied 0 s (.ok (some id)) s₁)
    (hfile : S3Call.file.Tallied 0 s₁ (.error ⟨"read"⟩) s₁)
    (habort : (S3Call.abortUpload (m.path key) id).Tallied 0 s₁ () s₂) : ∃ events out,
    (m.multipart key blob info metadata none).run.Runs (S3Call.Tallied 0) s events out s₂ := by
  have hparts : (m.uploadParts key blob info.bytes id info.bytes 0 []).run.Runs (S3Call.Tallied 0) s₁
      [⟨.file,Except.error ⟨"read"⟩⟩] (.error (mirrorError "cannot read multipart body")) s₁ := by
    obtain ⟨fuel,hfuel⟩ := Nat.exists_eq_succ_of_ne_zero (Nat.ne_of_gt hsize)
    generalize info.bytes = bytes at hsize hfuel
    nth_rewrite 2 [hfuel]
    rw [S3Mirror.uploadParts,if_pos hsize]
    exact .call hfile (.done _ _)
  have hall : (m.uploadAll key blob info id none).run.Runs (S3Call.Tallied 0) s₁
      ([⟨.file,Except.error ⟨"read"⟩⟩]++[]) (.error (mirrorError "cannot read multipart body")) s₁ :=
    Program.Runs.bind hparts (.done _ _)
  have hcreated : (liftM (s3 (.createUpload (m.path key) metadata)) : S3Op _).run.Runs (S3Call.Tallied 0) s
      _ (.ok (.ok (some id))) s₁ := .lift (.call hcreate (.done _ _))
  exact ⟨_,_,Program.Runs.bind_run hcreated (Program.Runs.bind hall (.call habort (.done _ _)))⟩

/-- A put of a large file under a key that has no object. -/
theorem put_large (hdigest : isDigest info.sha256 = true) (hsize : blob.length = info.bytes)
    (hhex : H.hex blob = info.sha256) (hlarge : partBytes < info.bytes) (hmeta : uploadMetadata U info = .ok metadata)
    (hfile : S3Call.file.Tallied 0 s (.ok ()) s)
    (hhead : (S3Call.headObject (m.path key)).Tallied 0 s (.error ⟨some 404,none⟩) s)
    (hmultipart : ∃ events out,
      (m.multipart key blob info metadata none).run.Runs (S3Call.Tallied 0) s events out s₂) :
    ∃ events out, (m.put H U key blob info).run.Runs (S3Call.Tallied 0) s events out s₂ := by
  have hmatches : (S3Mirror.localMatches H blob info).run.Runs (S3Call.Tallied 0) s
      [⟨.file,Except.ok ()⟩,⟨.file,Except.ok ()⟩] (.ok true) s := by
    have hread : file.run.Runs (S3Call.Tallied 0) s [⟨.file,Except.ok ()⟩] (.ok ()) s := .call hfile (.done _ _)
    simp only [S3Mirror.localMatches,hsize,hhex,ne_eq,not_true_eq_false,if_false]
    exact Program.Runs.bind_run hread (Program.Runs.bind_run hread (.done _ _))
  have hfound : (m.head key).run.Runs (S3Call.Tallied 0) s
      [⟨.headObject (m.path key),Except.error ⟨some 404,none⟩⟩] (.ok none) s := .call hhead (.done _ _)
  obtain ⟨events,out,hruns⟩ := hmultipart
  simp only [S3Mirror.put,S3Mirror.write,validateMetadataDigest,hdigest,hmeta,if_pos,hlarge]
  exact ⟨_,out,Program.Runs.bind_run (.done _ _) (Program.Runs.bind_run hmatches
    (Program.Runs.bind_run (.done _ _) (Program.Runs.bind_run hfound hruns)))⟩

/-- A request that loses nothing and leaves the bucket as it is. -/
theorem S3Call.Tallied.idle {t : ThreadId} {c : S3Call} {r : c.Ret} (hdoes : c.Does t s.bucket r s.bucket)
    (hc : ∀ id, ¬ c.Loses s.bucket s.bucket id r) : c.Tallied t s r s := by
  have hnone : { id | c.Loses s.bucket s.bucket id r } = ∅ := Set.eq_empty_of_forall_notMem hc
  refine ⟨hdoes,?_⟩
  rw [hnone,Set.union_empty]

theorem S3Call.Does.tallied {t : ThreadId} {c : S3Call} {r : c.Ret} {b : Bucket} (h : c.Does t s.bucket r b) :
    c.Tallied t s r ⟨b,s.lost ∪ { id | c.Loses s.bucket b id r }⟩ := ⟨h,rfl⟩

/-- One caller that puts one file, up to its return. -/
theorem callers_put (jobs : ThreadId → List MirrorJob) {p : Proposal}
    {events : List (Program.Event S3Call S3Call.Ret)} {out : Except DatastoreError PutOutcome}
    (hjobs : jobs 0 = [.change key (.put p)])
    (hput : (m.put H U key p.blob p.info).run.Runs (S3Call.Tallied 0) s events out s₂) :
    ∃ c, (callers H U m jobs).Reaches (System.init s) c ∧ c.thread 0 = .finished s () ∧ c.state = s₂ := by
  have hprogram : ((S3Job.put p).program H U m key).Runs (S3Call.Tallied 0) s (events++[]) (some out) s₂ :=
    Program.Runs.bind hput (.done _ _)
  have hjob : ((MirrorJob.change key (.put p)).run H U m).Runs (S3Call.Tallied 0) s (events++[]++[]) () s₂ :=
    Program.Runs.bind hprogram (.done _ _)
  have hrun : (runMirror H U m [.change key (.put p)]).Runs (S3Call.Tallied 0) s (events++[]++[]++[]) () s₂ :=
    Program.Runs.bind hjob (.done _ _)
  have hlaunch : (callers H U m jobs).launch 0 s (runMirror H U m [.change key (.put p)]) := by
    rw [← hjobs]
    exact rfl
  exact ⟨_,.head (.launch (t := 0) rfl hlaunch)
    (.tail (System.reaches_of_runs rfl hrun) (.finish (t := 0) rfl)),rfl,rfl⟩

end sample

/-- A body of one byte more than a part. -/
def Proposal.large : Proposal :=
  ⟨List.replicate (partBytes+1) 0,⟨Sha256.sample.hex [0],partBytes+1,none,none,none,0⟩,by decide⟩

/-- Its put into an empty bucket cannot read the file, and the abort is not carried out. -/
theorem uploads_ended_unread : ∃ c, (callers .sample (twoHosts "a.com" "b.org") ⟨"bucket",""⟩
      fun _ => [.change Artifact.sample.key (.put .large)]).Reaches (System.init Bucket.empty.tally) c ∧
    (∃ s₀, c.thread 0 = .finished s₀ ()) ∧ (c.state.bucket.uploads.lookup "u").isSome ∧ "u" ∈ c.state.lost := by
  have hsize : Proposal.large.blob.length = Proposal.large.info.bytes := List.length_replicate
  have hhex : Sha256.sample.hex Proposal.large.blob = Proposal.large.info.sha256 := rfl
  have hdigest : isDigest Proposal.large.info.sha256 = true := Sha256.sample.shape [0]
  have hlarge : partBytes < Proposal.large.info.bytes := Nat.lt_succ_self _
  obtain ⟨metadata,hmeta⟩ : ∃ metadata,
      uploadMetadata (twoHosts "a.com" "b.org") Proposal.large.info = .ok metadata := ⟨_,rfl⟩
  -- From here on the body is not looked at.
  generalize Proposal.large = p at *
  obtain ⟨b,hcreate,u,hu,howner⟩ : ∃ b,
      S3Call.Does 0 (.createUpload (S3Mirror.path ⟨"bucket",""⟩ Artifact.sample.key) metadata)
        Bucket.empty.tally.bucket (.ok (some "u")) b ∧ ∃ u, b.uploads.lookup "u" = some u ∧ u.owner = 0 :=
    ⟨_,.create rfl fun _ h => (Except.ok.inj h).symm,_,AList.lookup_insert _,rfl⟩
  have hfails : (⟨some 404,none⟩ : ServiceFailure).Honest none none := ⟨fun _ _ => rfl,fun _ h => by cases h⟩
  have hhead : (S3Call.headObject (S3Mirror.path ⟨"bucket",""⟩ Artifact.sample.key)).Tallied 0 Bucket.empty.tally
      (.error ⟨some 404,none⟩) Bucket.empty.tally := .idle (.headFails hfails) fun _ h => by cases h
  obtain ⟨events,out,hput⟩ := put_large hdigest hsize hhex hlarge hmeta (.idle .file fun _ h => by cases h) hhead
    (multipart_unread (Nat.zero_lt_of_lt hlarge) hcreate.tallied (.idle .file fun _ h => by cases h)
      (S3Call.Does.tallied .abortFails))
  obtain ⟨c,hr,hdone,hstate⟩ := callers_put (fun _ => [.change Artifact.sample.key (.put p)]) rfl hput
  obtain ⟨hended,-⟩ := uploads_ended hr
  have hstays : c.state.bucket.uploads.lookup "u" = some u := by
    rw [hstate]
    exact hu
  refine ⟨c,hr,⟨_,hdone⟩,by rw [hstays]; rfl,?_⟩
  by_contra hlost
  have hstatus := hended "u" u hstays hlost
  rw [howner,hdone] at hstatus
  rcases hstatus with ⟨s₀,p,h⟩ | h
  · cases h
  · cases h

end StarfieldDatastore
