import StarfieldDatastore.Uploads
import StarfieldDatastore.Interleaving.Replay

/-! Any number of callers that put, replace and delete one S3 object, in any interleaving
of their requests. -/
namespace StarfieldDatastore
open Interleaving

/-- A local file and the metadata that a caller proposes for it. -/
structure Proposal where
  blob : Bytes
  info : MirrorObject
  bound : info.bytes < 2^64

/-- What a caller does to the object. -/
inductive S3Job
  | put (p : Proposal)
  | replace (p : Proposal) (etag : String)
  | delete

abbrev S3Outcome := Option (Except DatastoreError PutOutcome)

namespace S3Job
variable (H : Sha256) (U : UrlCrate) (m : S3Mirror) (key : ArtifactKey)

def program : S3Job → Program S3Call S3Call.Ret S3Outcome
  | .put p => some <$> (m.put H U key p.blob p.info).run
  | .replace p etag => some <$> (m.replace H U key p.blob p.info etag).run
  | .delete => do
    s3 (.deleteObject (m.path key))
    return none

def proposal : S3Job → Option Proposal
  | .put p => some p
  | .replace p _ => some p
  | .delete => none

/-- The versions that a job displaces. -/
def Displaces : S3Job → Version → Prop
  | .put _, _ => False
  | .replace _ etag, v => v.etag = etag
  | .delete, _ => True

end S3Job

section race
variable {H : Sha256} {U : UrlCrate} {m : S3Mirror} {key : ArtifactKey} {job : ThreadId → S3Job}

/-- The callers of one object. One that dies leaves its uploads as they are. -/
def writers (H : Sha256) (U : UrlCrate) (m : S3Mirror) (key : ArtifactKey) (job : ThreadId → S3Job) :
    System ThreadId S3Call S3Call.Ret Bucket S3Outcome where
  step := S3Call.Does
  launch t _ p := p = (job t).program H U m key
  kill _ b b' := b' = b

/-- What a caller knows when it returns. -/
def Returned (path : String) (frozen : Prop) (t : ThreadId) (job : S3Job) (b₀ : Bucket) (r : S3Outcome)
    (b : Bucket) : Prop :=
  ∀ p, job.proposal = some p → ∀ result, r = some result → Uploaded path frozen t p.info b₀ result b

theorem job_holds (t : ThreadId) (job : S3Job) (frozen : Prop) (b₀ : Bucket) :
    (job.program H U m key).Holds (racing H (m.path key) job.Displaces frozen t)
      (Returned (m.path key) frozen t job b₀) b₀ := by
  have hsome : ∀ (p : Proposal) (op : S3Op PutOutcome), job.proposal = some p →
      op.run.Holds (racing H (m.path key) job.Displaces frozen t)
        (Uploaded (m.path key) frozen t p.info b₀) b₀ →
      (some <$> op.run : Program S3Call S3Call.Ret S3Outcome).Holds
        (racing H (m.path key) job.Displaces frozen t) (Returned (m.path key) frozen t job b₀) b₀ := by
    intro p op hp h
    refine Program.Holds.bind (h.mono fun result b huploaded b' hb q hq result' hr => ?_)
    rw [hp] at hq
    cases hq
    cases hr
    exact huploaded.stable hb
  cases job with
  | put p => exact hsome p _ rfl (put_holds p.bound (.refl _ _))
  | replace p etag => exact hsome p _ rfl (replace_holds p.bound (fun _ h => h) (.refl _ _))
  | delete =>
    refine Program.Holds.perform_bind fun b hb r b' hstep => ⟨?_,fun _ _ p hp => by cases hp⟩
    obtain ⟨-,hstep⟩ := hstep
    cases hstep
    refine ⟨⟨[],rfl,fun v hv => ?_⟩,fun _ _ hu _ => hu,fun _ _ => .inr trivial,fun h => h⟩
    change Function.update b.object (m.path key) none (m.path key) = some v at hv
    rw [Function.update_self] at hv
    cases hv

/-- The rely and guarantee of the callers. Where all of them put, nothing is displaced. -/
def race : (writers H U m key job).Discipline where
  inv := AllTruthful H
  rely t := Others (m.path key) (∀ t, ∃ p, job t = .put p) t
  guar t := Caller H (m.path key) (job t).Displaces t
  pre _ _ := True
  post t := Returned (m.path key) (∀ t, ∃ p, job t = .put p) t (job t)
  rely_refl _ := .refl
  rely_trans _ := .trans
  guar_inv h := h.truthful
  guar_rely {t u s s'} htu _ h := by
    refine ⟨h.later,fun id up hu ho => h.uploads id up hu (fun he => htu (he.symm.trans ho)),
      fun hputs v hv => ?_⟩
    obtain ⟨p,hp⟩ := hputs t
    rcases h.keeps v hv with hv | hv
    · exact hv
    · rw [hp] at hv
      exact hv.elim
  kill_inv h hinv := by
    rw [h]
    exact hinv
  kill_rely _ _ h := by
    rw [h]
    exact .refl _
  pre_stable _ h := h
  launch_holds {t s p} h _ := by
    rw [h]
    exact job_holds t (job t) _ s

/-- Whatever the callers of one object do, in any interleaving: a put alters no object that
is already stored; when it returns `Ok`, an object with the proposed digest and size has
been stored at some moment of the call; among puts alone, all that return `Ok` agree and at
most one has stored its object; a replacement displaces only the version with the ETag that
it was given; and what they write carries digest and length of its own body. -/
theorem uploads_race {b₀ : Bucket} {c : Config ThreadId S3Call S3Call.Ret Bucket S3Outcome}
    (hnew : ∀ path, ∀ v ∈ b₀.written path, v.writer = none)
    (hr : (writers H U m key job).Reaches (System.init b₀) c) :
    (∀ t s₀ call next r b p v, c.thread t = .running s₀ (.call call next) →
      S3Call.Does t call c.state r b → job t = .put p → c.state.object (m.path key) = some v →
      b.object (m.path key) = some v) ∧
    (∀ t s₀ p out, job t = .put p → c.thread t = .running s₀ (.done (some (.ok out))) →
      ∃ v, Held (m.path key) s₀ c.state v ∧ v.Carries p.info) ∧
    ((∀ t, ∃ p, job t = .put p) → ∀ t u p q s₀ s₁ out out', job t = .put p → job u = .put q →
      c.thread t = .finished s₀ (some (.ok out)) → c.thread u = .finished s₁ (some (.ok out')) →
      p.info.sha256 = q.info.sha256 ∧ p.info.bytes = q.info.bytes ∧
        (out = .stored → out' = .stored → t = u)) ∧
    (∀ t s₀ call next r b p etag v, c.thread t = .running s₀ (.call call next) →
      S3Call.Does t call c.state r b → job t = .replace p etag →
      c.state.object (m.path key) = some v → b.object (m.path key) ≠ some v → v.etag = etag) ∧
    ∀ path, ∀ v ∈ c.state.written path, v.writer.isSome → v.Truthful H := by
  have htruthful : AllTruthful H b₀ := fun path v hv hw => by
    rw [hnew path v hv] at hw
    cases hw
  have hsound := race.sound_of_reaches
    (race.sound_init htruthful fun _ => trivial) hr
  have hkeeps : ∀ t s₀ call next r b v, c.thread t = .running s₀ (.call call next) →
      S3Call.Does t call c.state r b → c.state.object (m.path key) = some v →
      b.object (m.path key) = some v ∨ (job t).Displaces v := by
    intro t s₀ call next r b v hrun hdoes hv
    have hgood := hsound.good t
    rw [hrun] at hgood
    exact (hgood _ (.refl _) _ _ ⟨hsound.inv,hdoes⟩).1.keeps v hv
  refine ⟨?_,?_,?_,?_,hsound.inv⟩
  · intro t s₀ call next r b p v hrun hdoes hjob hv
    rcases hkeeps t s₀ call next r b v hrun hdoes hv with h | h
    · exact h
    · rw [hjob] at h
      exact h.elim
  · intro t s₀ p out hjob hdone
    have hgood := hsound.good t
    rw [hdone] at hgood
    obtain ⟨v,hheld,hcarries,-⟩ := (hgood.of_done p (by rw [hjob]; rfl) _ rfl).2 out rfl
    exact ⟨v,hheld,hcarries⟩
  · intro hputs t u p q s₀ s₁ out out' hp hq ht hu
    have hfound : ∀ t p s₀ out, job t = .put p → c.thread t = .finished s₀ (some (.ok out)) →
        ∃ v, v.Carries p.info ∧ c.state.object (m.path key) = some v ∧ (out = .stored → v.writer = some t) := by
      intro t p s₀ out hjob hdone
      have hgood := hsound.good t
      rw [hdone] at hgood
      obtain ⟨v,-,hcarries,hnow,hwriter⟩ :=
        (hgood _ (.refl _) p (by rw [hjob]; rfl) _ rfl).2 out rfl
      exact ⟨v,hcarries,hnow hputs,hwriter⟩
    obtain ⟨v,hv,hnow,hw⟩ := hfound t p s₀ out hp ht
    obtain ⟨v',hv',hnow',hw'⟩ := hfound u q s₁ out' hq hu
    rw [hnow] at hnow'
    cases hnow'
    refine ⟨Option.some.inj (hv.digest.symm.trans hv'.digest),hv.length.symm.trans hv'.length,fun h h' => ?_⟩
    exact Option.some.inj ((hw h).symm.trans (hw' h'))
  · intro t s₀ call next r b p etag v hrun hdoes hjob hv hne
    rcases hkeeps t s₀ call next r b v hrun hdoes hv with h | h
    · exact absurd h hne
    · rw [hjob] at h
      exact h

end race

theorem sample_bound : 3 < 2^64 := by decide

/-- The content `abc` with its own digest and length. -/
def Proposal.sample : Proposal :=
  ⟨[0x61,0x62,0x63],⟨Sha256.sample.hex [0x61,0x62,0x63],3,none,none,none,0⟩,sample_bound⟩

/-- A bucket with nothing in it. -/
def Bucket.empty : Bucket := ⟨fun _ => none,fun _ => [],∅⟩

/-- The bucket in which these versions were stored, the latest first. -/
def Bucket.ofLog (log : List (String × Version)) : Bucket :=
  ⟨fun path => (log.find? fun e => e.1 = path).map Prod.snd,fun path => (log.filter fun e => e.1 = path).map Prod.snd,∅⟩

theorem ofLog_cons (path : String) (v : Version) (log : List (String × Version)) :
    Bucket.ofLog ((path,v) :: log) = (Bucket.ofLog log).store path v := by
  have hobject : (Bucket.ofLog ((path,v) :: log)).object = ((Bucket.ofLog log).store path v).object := by
    funext path'
    simp only [Bucket.ofLog,Bucket.store,Function.update_apply,List.find?_cons]
    by_cases hp : path' = path
    · simp [hp]
    · simp [hp,Ne.symm hp]
  have hwritten : (Bucket.ofLog ((path,v) :: log)).written = ((Bucket.ofLog log).store path v).written := by
    funext path'
    simp only [Bucket.ofLog,Bucket.store,Function.update_apply,List.filter_cons]
    by_cases hp : path' = path
    · simp [hp]
    · simp [hp,Ne.symm hp]
  exact congrArg₂ (fun object written => Bucket.mk object written ∅) hobject hwritten

theorem fresh_ofLog {log : List (String × Version)} {etag : String} (h : ∀ e ∈ log, e.2.etag ≠ etag) :
    (Bucket.ofLog log).Fresh etag := by
  intro path v hv
  obtain ⟨e,he,rfl⟩ := List.mem_map.mp hv
  exact h e (List.mem_filter.mp he).1

instance (cond : Condition) (found : Option Version) : Decidable (cond.Met found) :=
  match cond, found with
  | .ifNoneMatch, none => .isTrue rfl
  | .ifNoneMatch, some _ => .isFalse nofun
  | .ifMatch _, none => .isFalse nofun
  | .ifMatch etag, some v =>
    decidable_of_iff (v.etag = etag) ⟨fun h => ⟨v,rfl,h⟩,fun ⟨_,hv,h⟩ => Option.some.inj hv ▸ h⟩

/-- Requests of caller `t` that S3 answers at once, with the versions stored so far. -/
def S3Call.serve (t : ThreadId) :
    (c : S3Call) → List (String × Version) → Option (c.Ret × List (String × Version))
  | .file, log => some (.ok (),log)
  | .headObject path, log =>
    match (Bucket.ofLog log).object path with
    | some v => some (.ok v.head,log)
    | none => some (.error ⟨some 404,none⟩,log)
  | .getObject path, log =>
    match (Bucket.ofLog log).object path with
    | some v => some (.ok ⟨[v.body],true⟩,log)
    | none => some (.error ⟨some 404,none⟩,log)
  | .putObject path metadata body cond, log =>
    let etag := toString log.length
    if log.any fun e => e.2.etag = etag then none
    else if cond.Met ((Bucket.ofLog log).object path) then
      some (.ok (),(path,⟨body,metadata,etag,some t⟩) :: log)
    else some (.error ⟨some 412,none⟩,log)
  | _, _ => none

theorem S3Call.serve_does (t : ThreadId) (c : S3Call) (log : List (String × Version)) (r : c.Ret)
    (log' : List (String × Version)) (h : c.serve t log = some (r,log')) :
    c.Does t (.ofLog log) r (.ofLog log') := by
  have habsent : ∀ {found : Option Version}, found = none →
      (⟨some 404,none⟩ : ServiceFailure).Honest found none :=
    fun hfound => ⟨fun _ _ => hfound,fun _ hc => by cases hc⟩
  cases c with
  | file =>
    cases h
    exact .file
  | headObject path =>
    rw [S3Call.serve] at h
    split at h
    · rename_i v hv
      cases h
      exact .head hv
    · rename_i hnone
      cases h
      exact .headFails (habsent hnone)
  | getObject path =>
    rw [S3Call.serve] at h
    split at h
    · rename_i v hv
      cases h
      exact .get hv fun _ => by simp
    · rename_i hnone
      cases h
      exact .getFails (habsent hnone)
  | putObject path metadata body cond =>
    simp only [S3Call.serve] at h
    split at h
    · cases h
    · rename_i hfresh
      split at h
      · rename_i hmet
        cases h
        rw [ofLog_cons]
        refine .put hmet (fresh_ofLog fun e he hetag => hfresh ?_) fun _ hf => by cases hf
        exact List.any_eq_true.mpr ⟨e,he,decide_eq_true hetag⟩
      · rename_i hunmet
        cases h
        refine .putFails ⟨(fun _ hc => by cases hc),fun c hc _ => ?_⟩
        cases hc
        exact hunmet
  | _ => cases h

/-- A put of the sample object. -/
def putSample : Program S3Call S3Call.Ret S3Outcome :=
  S3Job.program .sample (twoHosts "a.com" "b.org") ⟨"bucket",""⟩ Artifact.sample.key (.put .sample)

/-- One caller has asked for the object and opened its file when another one stores its own; the first is
then refused with a 412 and finds what it wanted. -/
def racedPuts : Bool :=
  (putSample.replay (S3Call.serve 0) 4 []).any fun first =>
    putSample.replays (S3Call.serve 1) 20 first.2 fun out log =>
      (out.any fun answer => answer.toOption = some .stored) &&
        first.1.replays (S3Call.serve 0) 20 log fun out log =>
          (out.any fun answer => answer.toOption = some .alreadyPresent) &&
            log.map (fun e => (e.1,e.2.writer)) = [("abc",some 1)]

theorem eq_ok_of_toOption {out : S3Outcome} {outcome : PutOutcome}
    (h : out.any (fun answer => answer.toOption = some outcome) = true) : out = some (.ok outcome) := by
  obtain ⟨answer,rfl,h⟩ := (Option.any_eq_true _ _).mp h
  cases answer with
  | error e => simp [Except.toOption] at h
  | ok found => simpa [Except.toOption] using h

/-- Two puts that both find nothing: one stores its object, and the other agrees with it. -/
theorem uploads_race_puts : ∃ c s₀ s₁ v, (writers .sample (twoHosts "a.com" "b.org") ⟨"bucket",""⟩
      Artifact.sample.key fun _ => .put .sample).Reaches (System.init (.ofLog [])) c ∧
    c.thread 0 = .finished s₀ (some (.ok .alreadyPresent)) ∧ c.thread 1 = .finished s₁ (some (.ok .stored)) ∧
    c.state.object "abc" = some v ∧ v.writer = some 1 ∧ v.Truthful .sample := by
  have hraced : racedPuts = true := by decide +kernel
  obtain ⟨⟨p,log₀⟩,hp,hthen⟩ := (Option.any_eq_true _ _).mp hraced
  obtain ⟨out₁,log₁,hsecond,hthen⟩ := Program.replay_of_replays hthen
  simp only [Bool.and_eq_true] at hthen
  obtain rfl := eq_ok_of_toOption hthen.1
  obtain ⟨out,log,hfirst,hend⟩ := Program.replay_of_replays hthen.2
  simp only [Bool.and_eq_true] at hend
  obtain rfl := eq_ok_of_toOption hend.1
  obtain ⟨⟨path,v⟩,rfl,he⟩ := List.map_eq_singleton_iff.mp (of_decide_eq_true hend.2)
  obtain ⟨rfl,hwriter⟩ := Prod.mk.inj he
  let sys := writers .sample (twoHosts "a.com" "b.org") ⟨"bucket",""⟩ Artifact.sample.key fun _ => .put .sample
  have hr : sys.Reaches (System.init (.ofLog [])) _ :=
    .head (.launch (t := 0) rfl rfl) <|
      (System.reaches_of_replay Bucket.ofLog (S3Call.serve_does 0) (Function.update_self 0 _ _) hp).trans <|
        .head (.launch (t := 1) rfl rfl) <|
          (System.finishes_of_replay Bucket.ofLog (S3Call.serve_does 1) (Function.update_self 1 _ _) hsecond).trans <|
            System.finishes_of_replay Bucket.ofLog (S3Call.serve_does 0) rfl hfirst
  obtain ⟨-,-,-,-,htruthful⟩ := uploads_race (fun path v hv => by cases hv) hr
  refine ⟨_,_,_,v,hr,rfl,rfl,by simp [Bucket.ofLog],hwriter,htruthful "abc" v ?_ ?_⟩
  · simp [Bucket.ofLog]
  · change v.writer = some 1 at hwriter
    rw [hwriter]
    rfl

end StarfieldDatastore
