import StarfieldDatastore.Accepts
import StarfieldDatastore.Cache
import StarfieldDatastore.S3

/-! The check that the verification of a mirror makes of one object, and the service's
own look at the metadata of the same object. -/
namespace StarfieldDatastore
open Interleaving

/-- The body that was downloaded against the metadata, the manifest and the check. -/
def compareObject (H : Sha256) (artifact : Artifact) (info : MirrorObject) (body : Bytes) :
    Except DatastoreError Unit :=
  if H.hex body ≠ info.sha256 || body.length ≠ info.bytes then
    .error (.mirror s!"{artifact.key.text} differs from S3 digest/size metadata")
  else if artifact.expectedBytes.any (· ≠ info.bytes) then
    .error (.mirror s!"{artifact.key.text} differs from manifest size")
  else
    match artifact.check.checkFile H body with
    | .ok () => .ok ()
    | .error failure => .error (.contentRejected artifact.key failure)

/-- The check of one object, once its HEAD has been answered. The download goes to a file
that is then reopened and read twice. -/
def checkObject (H : Sha256) (m : S3Mirror) (artifact : Artifact)
    (original : Except DatastoreError (Option MirrorObject)) : S3Op Unit := do
  match ← original with
  | none => throw (.mirror s!"{artifact.key.text} missing from S3")
  | some info =>
    match ← m.fetch artifact.key with
    | none => throw (.mirror s!"{artifact.key.text} disappeared from S3")
    | some body =>
      file
      file
      compareObject H artifact info body

/-- The HEAD of an object and its check. -/
def judgeObject (H : Sha256) (m : S3Mirror) (artifact : Artifact) :
    Program S3Call S3Call.Ret (Except DatastoreError Unit) := do
  let original ← (m.head artifact.key).run
  (checkObject H m artifact original).run

section check
variable {H : Sha256} {m : S3Mirror} {artifact : Artifact} {info : MirrorObject} {body : Bytes}
  {t : ThreadId} {b b' : Bucket} {v : Version}

mutual

/-- What a body satisfies its metadata satisfies. -/
theorem checkPins_of_accepts (hhex : H.hex body = info.sha256) (hbytes : body.length = info.bytes) :
    ∀ check : ContentCheck, check.Accepts H body → checkPins info check = true
  | .sha256 pin, h => by
    simp only [ContentCheck.Accepts] at h
    simp [checkPins,← hhex,h]
  | .minBytes n, h => by
    simp only [ContentCheck.Accepts,hbytes] at h
    simp [checkPins,h]
  | .all checks, h => checkAllPins_of_accepts hhex hbytes checks h
  | .none, _ => rfl
  | .magic _ _, _ => rfl
  | .notHtml, _ => rfl
  | .custom _, _ => rfl

theorem checkAllPins_of_accepts (hhex : H.hex body = info.sha256) (hbytes : body.length = info.bytes) :
    ∀ checks : List ContentCheck, ContentCheck.AcceptsAll H body checks → checkAllPins info checks = true
  | [], _ => rfl
  | check :: checks, h => by
    simp [checkAllPins,checkPins_of_accepts hhex hbytes check h.1,
      checkAllPins_of_accepts hhex hbytes checks h.2]

end

theorem compareObject_ok (h : compareObject H artifact info body = .ok ()) :
    H.hex body = info.sha256 ∧ body.length = info.bytes ∧
      (∀ n, artifact.expectedBytes = some n → n = info.bytes) ∧ artifact.check.Accepts H body := by
  unfold compareObject at h
  split at h
  · cases h
  · rename_i hmeta
    split at h
    · cases h
    · rename_i hsize
      simp only [ne_eq,decide_not,Bool.or_eq_true,Bool.not_eq_true',decide_eq_false_iff_not,not_or,
        not_not] at hmeta
      refine ⟨hmeta.1,hmeta.2,fun n hn => by simpa [hn] using hsize,ContentCheck.checkFile_iff.mp ?_⟩
      cases hc : artifact.check.checkFile H body with
      | ok passed => rfl
      | error failure =>
        rw [hc] at h
        cases h

/-- The service accepts the metadata of an object that the check accepts. -/
theorem checkMetadata_of_compare (h : compareObject H artifact info body = .ok ()) :
    checkMetadata artifact info = .ok () := by
  obtain ⟨hhex,hbytes,hsize,haccepts⟩ := compareObject_ok h
  have hpins := checkPins_of_accepts hhex hbytes _ haccepts
  have hany : artifact.expectedBytes.any (· ≠ info.bytes) = false := by
    cases hn : artifact.expectedBytes with
    | none => rfl
    | some n => simp [hsize n hn]
  rw [checkMetadata,hany,hpins]
  rfl

theorem head_runs {key : ArtifactKey} {events : List (Program.Event S3Call S3Call.Ret)}
    {r : Except DatastoreError (Option MirrorObject)}
    (hr : (m.head key).run.Runs (S3Call.Does t) b events r b') : b' = b ∧
      ∀ info, r = .ok (some info) → ∃ v, b.object (m.path key) = some v ∧ mirrorObject v.head = .ok info := by
  cases hr with
  | call head tail =>
    cases head with
    | head found =>
      rename_i v
      cases tail
      refine ⟨rfl,fun info hinfo => ⟨v,found,?_⟩⟩
      cases hm : mirrorObject v.head with
      | error e =>
        rw [hm] at hinfo
        cases hinfo
      | ok stored =>
        rw [hm] at hinfo
        cases hinfo
        rfl
    | headFails honest =>
      rename_i f
      cases tail
      refine ⟨rfl,fun info hinfo => ?_⟩
      split at hinfo <;> cases hinfo

theorem file_runs {events : List (Program.Event S3Call S3Call.Ret)} {r : Except DatastoreError Unit}
    (hr : file.run.Runs (S3Call.Does t) b events r b') : b' = b := by
  cases hr with
  | call head tail =>
    cases head
    cases tail
    rfl

theorem sink_runs {chunks : List Bytes} {events : List (Program.Event S3Call S3Call.Ret)}
    {r : Except DatastoreError Unit}
    (hr : (S3Mirror.sink chunks).run.Runs (S3Call.Does t) b events r b') : b' = b := by
  induction chunks generalizing events b with
  | nil => cases hr; rfl
  | cons chunk chunks ih =>
    rcases hr.bind_run_cases with ⟨e,-,hf⟩ | ⟨before,u,b₁,after,-,hf,hrest⟩
    · exact file_runs hf
    · rw [ih hrest,file_runs hf]

theorem fetch_runs {key : ArtifactKey} {events : List (Program.Event S3Call S3Call.Ret)}
    {r : Except DatastoreError (Option Bytes)}
    (hr : (m.fetch key).run.Runs (S3Call.Does t) b events r b') : b' = b ∧
      ∀ body, r = .ok (some body) → ∃ v, b.object (m.path key) = some v ∧ body = v.body := by
  rcases hr.bind_run_cases with ⟨e,rfl,hs⟩ | ⟨before,output,b₁,after,-,hs,hrest⟩
  · obtain ⟨a,ha,-⟩ := Program.Runs.of_lift hs
    cases ha
  · obtain ⟨a,ha,hs⟩ := Program.Runs.of_lift hs
    cases ha
    cases hs with
    | call head tail =>
      cases head with
      | get found body =>
        rename_i v output
        cases tail
        rcases hrest.bind_run_cases with ⟨e,rfl,hsink⟩ | ⟨before,u,b₂,after,-,hsink,hlast⟩
        · exact ⟨sink_runs hsink,fun body hbody => (by cases hbody)⟩
        · obtain rfl := sink_runs hsink
          split at hlast
          · rename_i hcomplete
            cases hlast
            refine ⟨rfl,fun chunks hchunks => ⟨v,found,?_⟩⟩
            cases hchunks
            exact body hcomplete
          · cases hlast
            exact ⟨rfl,fun body hbody => (by cases hbody)⟩
      | getFails honest =>
        cases tail
        dsimp only at hrest
        split at hrest
        · cases hrest
          exact ⟨rfl,fun body hbody => (by cases hbody)⟩
        · cases hrest
          exact ⟨rfl,fun body hbody => (by cases hbody)⟩

/-- An object that the check accepts, with the metadata that the check was made against. -/
theorem judgeObject_ok {events : List (Program.Event S3Call S3Call.Ret)}
    (hr : (judgeObject H m artifact).Runs (S3Call.Does t) b events (.ok ()) b') :
    ∃ v info, b.object (m.path artifact.key) = some v ∧ mirrorObject v.head = .ok info ∧
      compareObject H artifact info v.body = .ok () := by
  obtain ⟨before,original,b₁,after,-,hhead,hrest⟩ := Program.Runs.bind_cases hr
  obtain ⟨rfl,hinfo⟩ := head_runs hhead
  cases original with
  | error e => cases hrest
  | ok found =>
    cases found with
    | none => cases hrest
    | some info =>
      obtain ⟨v,hobject,hmeta⟩ := hinfo info rfl
      rcases hrest.bind_run_cases with ⟨e,he,-⟩ | ⟨before,lifted,b₂,after,-,hlift,hrest⟩
      · cases he
      cases hlift
      rcases hrest.bind_run_cases with ⟨e,he,-⟩ | ⟨before,found,b₂,after,-,hfetch,hrest⟩
      · cases he
      · obtain ⟨rfl,hbody⟩ := fetch_runs hfetch
        cases found with
        | none => cases hrest
        | some body =>
          obtain ⟨v',hobject',rfl⟩ := hbody body rfl
          cases hobject.symm.trans hobject'
          rcases hrest.bind_run_cases with ⟨e,he,-⟩ | ⟨before,u,b₃,after,-,-,hrest⟩
          · cases he
          · rcases hrest.bind_run_cases with ⟨e,he,-⟩ | ⟨before,u,b₄,after,-,-,hrest⟩
            · cases he
            · cases hc : compareObject H artifact info v.body with
              | ok passed => exact ⟨v,info,hobject,hmeta,hc⟩
              | error e =>
                rw [hc] at hrest
                cases hrest

end check
end StarfieldDatastore
