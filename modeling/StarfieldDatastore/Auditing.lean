import StarfieldDatastore.Admin

/-! What `verify --at` reports of a mirror that nobody changes meanwhile: exactly the artifacts
whose objects are not in order. -/
namespace StarfieldDatastore
open Interleaving

/-- How a request for an object is answered when it does not fail. -/
inductive S3Call.Replies (b : Bucket) : (c : S3Call) → c.Ret → Prop
  | file : Replies b .file (.ok ())
  | head {path v} (found : b.object path = some v) : Replies b (.headObject path) (.ok v.head)
  | headMissing {path} {f : ServiceFailure} (missing : b.object path = none) (status : f.status = some 404) :
      Replies b (.headObject path) (.error f)
  | get {path v} {output : GetOutput} (found : b.object path = some v) (complete : output.complete = true)
      (body : output.chunks.flatten = v.body) : Replies b (.getObject path) (.ok output)
  | getMissing {path} {f : ServiceFailure} (missing : b.object path = none) (status : f.status = some 404) :
      Replies b (.getObject path) (.error f)

/-- Steps on a bucket that nobody else changes, none of which fails. -/
def replying (t : ThreadId) (c : S3Call) (b : Bucket) (r : c.Ret) (b' : Bucket) : Prop :=
  c.Does t b r b' ∧ c.Replies b r

/-- The object of an artifact agrees with its metadata and is what the artifact asks for. -/
def InOrder (H : Sha256) (m : S3Mirror) (b : Bucket) (artifact : Artifact) : Prop :=
  ∃ v info, b.object (m.path artifact.key) = some v ∧ mirrorObject v.head = .ok info ∧
    H.hex v.body = info.sha256 ∧ v.body.length = info.bytes ∧
    (∀ n, artifact.expectedBytes = some n → n = info.bytes) ∧ artifact.check.Accepts H v.body

/-- A request that changes nothing. -/
def S3Call.reads : S3Call → Bool
  | .file => true
  | .headObject _ => true
  | .getObject _ => true
  | _ => false

section s3
variable {H : Sha256} {U : UrlCrate} {m : S3Mirror} {artifact : Artifact} {key : ArtifactKey} {t : ThreadId}
  {b b' : Bucket} {info : MirrorObject} {body : Bytes} {v : Version} {α : Type}

/-- A request that succeeds is one of the steps of S3. -/
theorem S3Call.Replies.does {c : S3Call} {r : c.Ret} (h : c.Replies b r) : c.Does t b r b := by
  cases h with
  | file => exact .file
  | head found => exact .head found
  | headMissing missing status => exact .headFails ⟨fun _ _ => missing,fun _ h => by cases h⟩
  | get found complete body => exact .get found fun _ => body
  | getMissing missing status => exact .getFails ⟨fun _ _ => missing,fun _ h => by cases h⟩

theorem S3Call.Replies.reads {c : S3Call} {r : c.Ret} (h : c.Replies b r) : c.reads = true := by
  cases h <;> rfl

theorem S3Call.Does.unchanged {c : S3Call} {r : c.Ret} (h : c.Does t b r b') (hc : c.reads = true) : b' = b := by
  cases h <;> first | rfl | cases hc

/-- A request and what follows each of its answers. -/
theorem s3_replies {c : S3Call} {f : c.Ret → Program S3Call S3Call.Ret α} {Q : α → Bucket → Prop}
    (hcan : ∃ r, c.Replies b r) (h : ∀ r, c.Replies b r → (f r).Total (replying t) Q b) :
    (s3 c >>= f).Total (replying t) Q b := by
  obtain ⟨r,hr⟩ := hcan
  refine Program.Total.perform_bind ⟨r,b,hr.does,hr⟩ ?_
  rintro r b' ⟨hdoes,hr⟩
  rw [hdoes.unchanged hr.reads]
  exact h r hr

theorem file_replies {α : Type} {f : Unit → S3Op α} {Q : Except DatastoreError α → Bucket → Prop}
    (h : (f ()).run.Total (replying t) Q b) : (file >>= f).run.Total (replying t) Q b := by
  refine s3_replies ⟨_,.file⟩ fun r hr => ?_
  cases hr
  exact h

/-- What a HEAD request of an object says. -/
structure Shown (m : S3Mirror) (key : ArtifactKey) (b : Bucket) (out : Except DatastoreError (Option MirrorObject)) :
    Prop where
  found : ∀ v, b.object (m.path key) = some v → out = (mirrorObject v.head).map some
  missing : b.object (m.path key) = none → out = .ok none

theorem head_replies : (m.head key).run.Total (replying t) (fun out b' => b' = b ∧ Shown m key b out) b := by
  refine s3_replies ?_ fun r hr => ?_
  · cases hobject : b.object (m.path key) with
    | none => exact ⟨.error ⟨some 404,none⟩,.headMissing hobject rfl⟩
    | some v => exact ⟨_,.head hobject⟩
  · cases hr with
    | head found =>
      refine ⟨rfl,fun v hv => ?_,fun hnone => ?_⟩
      · rw [found] at hv
        cases hv
        rfl
      · rw [found] at hnone
        cases hnone
    | headMissing missing status =>
      simp only [status,if_true]
      refine ⟨rfl,fun v hv => ?_,fun _ => rfl⟩
      rw [missing] at hv
      cases hv

theorem sink_replies (chunks : List Bytes) {Q : Except DatastoreError Unit → Bucket → Prop} (hQ : Q (.ok ()) b) :
    (S3Mirror.sink chunks).run.Total (replying t) Q b := by
  induction chunks with
  | nil => exact hQ
  | cons chunk chunks ih => exact file_replies ih

theorem fetch_replies : (m.fetch key).run.Total (replying t) (fun out b' => b' = b ∧
    (∀ v, b.object (m.path key) = some v → out = .ok (some v.body)) ∧
    (b.object (m.path key) = none → out = .ok none)) b := by
  refine s3_replies ?_ fun r hr => ?_
  · cases hobject : b.object (m.path key) with
    | none => exact ⟨.error ⟨some 404,none⟩,.getMissing hobject rfl⟩
    | some v => exact ⟨.ok ⟨[v.body],true⟩,.get hobject rfl (by simp)⟩
  · cases hr with
    | get found complete body =>
      refine Program.Total.bind_run (sink_replies _ ?_)
      simp only [complete,if_true,body]
      refine ⟨rfl,fun v hv => ?_,fun hnone => ?_⟩
      · rw [found] at hv
        cases hv
        rfl
      · rw [found] at hnone
        cases hnone
    | getMissing missing status =>
      simp only [ExceptT.bindCont,status,if_true]
      refine ⟨rfl,fun v hv => ?_,fun _ => rfl⟩
      rw [missing] at hv
      cases hv

/-- The comparison passes where the body agrees with its metadata and is what is asked for. -/
theorem compareObject_iff : compareObject H artifact info body = .ok () ↔
    H.hex body = info.sha256 ∧ body.length = info.bytes ∧
      (∀ n, artifact.expectedBytes = some n → n = info.bytes) ∧ artifact.check.Accepts H body := by
  refine ⟨compareObject_ok,fun ⟨hhex,hlength,hsize,haccepts⟩ => ?_⟩
  have hany : artifact.expectedBytes.any (· ≠ info.bytes) = false := by
    cases hn : artifact.expectedBytes with
    | none => rfl
    | some n => simp [hsize n hn]
  have hcheck : artifact.check.checkFile H body = .ok () := ContentCheck.checkFile_iff.mpr haccepts
  unfold compareObject
  rw [if_neg (by simp [hhex,hlength]),hany,if_neg Bool.false_ne_true,hcheck]

theorem inOrder_iff (hobject : b.object (m.path artifact.key) = some v) : InOrder H m b artifact ↔
    ∃ info, mirrorObject v.head = .ok info ∧ compareObject H artifact info v.body = .ok () := by
  constructor
  · rintro ⟨v',info,hv,hinfo,h⟩
    rw [hobject] at hv
    cases hv
    exact ⟨info,hinfo,compareObject_iff.mpr h⟩
  · rintro ⟨info,hinfo,h⟩
    exact ⟨v,info,hobject,hinfo,compareObject_iff.mp h⟩

theorem not_inOrder (hobject : b.object (m.path artifact.key) = none) : ¬ InOrder H m b artifact := by
  rintro ⟨v,info,hv,-⟩
  rw [hobject] at hv
  cases hv

/-- What the check of an object says once its HEAD has been answered. -/
theorem checkObject_replies {original : Except DatastoreError (Option MirrorObject)}
    (horiginal : Shown m artifact.key b original) : (checkObject H m artifact original).run.Total (replying t)
      (fun out b' => b' = b ∧ (out = .ok () ↔ InOrder H m b artifact)) b := by
  cases hobject : b.object (m.path artifact.key) with
  | none =>
    rw [horiginal.missing hobject]
    exact ⟨rfl,(fun h => by cases h),fun h => absurd h (not_inOrder hobject)⟩
  | some v =>
    rw [horiginal.found v hobject,inOrder_iff hobject]
    cases hmeta : mirrorObject v.head with
    | error e =>
      refine ⟨rfl,(fun h => by cases h),?_⟩
      rintro ⟨info,hinfo,-⟩
      cases hinfo
    | ok info =>
      have hlift : ∀ {f : Option MirrorObject → S3Op Unit} {Q : Except DatastoreError Unit → Bucket → Prop},
          (f (some info)).run.Total (replying t) Q b →
            (liftM (Except.map some (Except.ok info : Except DatastoreError MirrorObject)) >>= f).run.Total
              (replying t) Q b := fun h => h
      refine hlift (Program.Total.bind_run (fetch_replies.mono ?_))
      rintro out b' ⟨rfl,hfound,-⟩
      rw [hfound v hobject]
      refine file_replies (file_replies ⟨rfl,fun h => ⟨info,rfl,h⟩,?_⟩)
      rintro ⟨info',hinfo,h⟩
      cases hinfo
      exact h

theorem caught_replies {op : S3Op α} {Q : Except DatastoreError α → Bucket → Prop}
    (h : op.run.Total (replying t) Q b) :
    (caught op).run.Total (replying t) (fun out b' => ∃ r, out = .ok r ∧ Q r b') b :=
  Program.Total.bind (h.mono fun r _ hr => ⟨r,rfl,hr⟩)

theorem examine_replies : (examine H m false artifact).run.Total (replying t) (fun out b' => b' = b ∧
    ∃ verdict, out = .ok (none,verdict) ∧ (verdict = .ok () ↔ InOrder H m b artifact)) b := by
  refine Program.Total.bind_run ((caught_replies head_replies).mono ?_)
  rintro out b' ⟨original,rfl,rfl,hshown⟩
  refine file_replies (Program.Total.bind_run ((caught_replies (checkObject_replies hshown)).mono ?_))
  rintro out b' ⟨verdict,rfl,rfl,hverdict⟩
  exact ⟨rfl,verdict,rfl,hverdict⟩

end s3

/-- The requests to the mirror do not fail. -/
def AdminCall.Prompt (s : Site) : (c : AdminCall) → c.Ret → Prop
  | .s3 c, r => c.Replies s.bucket r
  | .store _, _ => True
  | .manifest _, _ => True

/-- Steps on a site that nobody else changes, where the mirror answers. -/
def prompt (t : ThreadId) (c : AdminCall) (s : Site) (r : c.Ret) (s' : Site) : Prop :=
  c.Does t s r s' ∧ c.Prompt s r

section site
variable {H : Sha256} {U : UrlCrate} {ds : Datastore} {m : S3Mirror} {artifact : Artifact} {t : ThreadId} {s : Site}
  {α : Type}

theorem onS3_prompt {op : S3Op α} {Q : Except DatastoreError α → Prop}
    (h : op.run.Total (replying t) (fun out b' => b' = s.bucket ∧ Q out) s.bucket) :
    (onS3 op).run.Total (prompt t) (fun out s' => s' = s ∧ Q out) s := by
  have hcan : ∀ (c : S3Call) (s' : Site), s' = s → (∃ r b', replying t c s'.bucket r b') →
      ∃ r s'', prompt t (.s3 c) s' r s'' := by
    rintro c s' - ⟨r,b',hdoes,hr⟩
    exact ⟨r,{ s' with bucket := b' },⟨b',hdoes,rfl⟩,hr⟩
  have hstep : ∀ (c : S3Call) (s' : Site) (r : c.Ret) (s'' : Site), s' = s → prompt t (.s3 c) s' r s'' →
      replying t c s'.bucket r s''.bucket ∧ s'' = s := by
    rintro c s' r s'' rfl ⟨⟨b',hdoes,rfl⟩,hr⟩
    refine ⟨⟨hdoes,hr⟩,?_⟩
    rw [hdoes.unchanged hr.reads]
  exact (Program.Total.embed (e := Admin.inS3) h hcan hstep rfl).mono fun out s' h => ⟨h.2,h.1.2⟩

theorem verifyObject_prompt : (verifyObject H U ds m false artifact).run.Total (prompt t) (fun out s' => s' = s ∧
    ∃ fine, out = .ok fine ∧ (fine = true ↔ InOrder H m s.bucket artifact)) s := by
  refine Program.Total.bind_run ((onS3_prompt examine_replies).mono ?_)
  rintro out s' ⟨rfl,verdict,rfl,hverdict⟩
  cases verdict with
  | ok _ => exact ⟨rfl,true,rfl,fun _ => hverdict.mp rfl,fun _ => rfl⟩
  | error e =>
    refine ⟨rfl,false,rfl,(fun h => by cases h),fun h => ?_⟩
    cases hverdict.mpr h

instance (H : Sha256) (m : S3Mirror) (b : Bucket) (artifact : Artifact) : Decidable (InOrder H m b artifact) :=
  decidable_of_iff (∃ v ∈ b.object (m.path artifact.key), ∃ info ∈ (mirrorObject v.head).toOption,
    (compareObject H artifact info v.body).isOk = true) <| by
  have hfound : ∀ (v : Version) info, info ∈ (mirrorObject v.head).toOption ↔ mirrorObject v.head = .ok info := by
    intro v info
    cases mirrorObject v.head with
    | error e => simp [Except.toOption]
    | ok found => simp [Except.toOption]
  have hpasses : ∀ info body, (compareObject H artifact info body).isOk = true ↔
      compareObject H artifact info body = .ok () := by
    intro info body
    cases compareObject H artifact info body with
    | error e => simp [Except.isOk,Except.toBool]
    | ok _ => simp [Except.isOk,Except.toBool]
  simp only [hfound,hpasses,compareObject_iff]
  exact ⟨fun ⟨v,hv,info,h⟩ => ⟨v,info,hv,h⟩,fun ⟨v,info,hv,h⟩ => ⟨v,hv,info,h⟩⟩

/-- The artifacts whose objects are not in order. -/
def faulty (H : Sha256) (m : S3Mirror) (b : Bucket) (artifacts : List Artifact) : List Artifact :=
  artifacts.filter fun artifact => ¬ InOrder H m b artifact

theorem verifyObjects_prompt (artifacts : List Artifact) (failed : ℕ) :
    (verifyObjects H U ds m false failed artifacts).run.Total (prompt t) (fun out s' => s' = s ∧
      out = .ok (failed+(faulty H m s.bucket artifacts).length)) s := by
  induction artifacts generalizing failed with
  | nil => exact ⟨rfl,rfl⟩
  | cons artifact artifacts ih =>
    refine Program.Total.bind_run (verifyObject_prompt.mono ?_)
    rintro out s' ⟨rfl,fine,rfl,hfine⟩
    refine (ih _).mono ?_
    rintro out s' ⟨rfl,rfl⟩
    refine ⟨rfl,?_⟩
    cases fine with
    | true =>
      have horder := hfine.mp rfl
      simp [faulty,horder]
    | false =>
      have horder : ¬ InOrder H m s'.bucket artifact := fun h => by cases hfine.mpr h
      simp only [faulty,List.filter_cons,horder,not_false_eq_true,decide_true,if_true,List.length_cons]
      congr 1
      simp only [Bool.false_eq_true,if_false]
      omega

/-- `verify --at` on a mirror that answers and that nobody changes ends, changes nothing and
counts the artifacts whose objects are not in order. -/
theorem verifyS3_reports (manifest : Manifest) :
    (verifyS3 H U ds m false manifest).run.Total (prompt t) (fun out s' => s' = s ∧
      out = if faulty H m s.bucket manifest.artifacts = [] then .ok () else
        .error (.mirror s!"verification failed for {(faulty H m s.bucket manifest.artifacts).length} artifacts")) s := by
  refine Program.Total.bind_run ((verifyObjects_prompt manifest.artifacts 0).mono ?_)
  rintro out s' ⟨rfl,rfl⟩
  rw [Nat.zero_add]
  by_cases hnone : faulty H m s'.bucket manifest.artifacts = []
  · rw [hnone]
    exact ⟨rfl,rfl⟩
  · have hpos : (faulty H m s'.bucket manifest.artifacts).length > 0 := List.length_pos_iff.mpr hnone
    simp only [hpos,hnone,if_true,if_false]
    exact ⟨rfl,rfl⟩

end site
end StarfieldDatastore
