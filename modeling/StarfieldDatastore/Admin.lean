import StarfieldDatastore.Deliver
import StarfieldDatastore.Interleaving.Embedding
import StarfieldDatastore.Managed
import StarfieldDatastore.Manifest
import StarfieldDatastore.ObjectCheck
import StarfieldDatastore.Uploads

/-! The commands of an administrator, which work on a cache root, a bucket and a manifest file, and the
requests to S3 that displace nothing. -/
namespace StarfieldDatastore
open Interleaving

/-- Steps on the manifest file. It is replaced by a temporary file next to it. -/
inductive ManifestCall
  | lock
  | read
  | createTemp
  | writeTemp (text : String)
  | syncTemp
  | persist (text : String)
  | syncParent

@[reducible] def ManifestCall.Out : ManifestCall → Type
  | .read => String
  | _ => Unit

@[reducible] def ManifestCall.Ret (c : ManifestCall) : Type := Except IoError c.Out

/-- Any step can fail. A rename that fails leaves the file as it is. -/
inductive ManifestCall.Does : (c : ManifestCall) → String → c.Ret → String → Prop
  | fails {c s e} : Does c s (.error e) s
  | lock {s} : Does .lock s (.ok ()) s
  | read {s} : Does .read s (.ok s) s
  | createTemp {s} : Does .createTemp s (.ok ()) s
  | writeTemp {s text} : Does (.writeTemp text) s (.ok ()) s
  | syncTemp {s} : Does .syncTemp s (.ok ()) s
  | persist {s text} : Does (.persist text) s (.ok ()) text
  | syncParent {s} : Does .syncParent s (.ok ()) s

/-- What an administrative command works on. -/
inductive AdminCall
  | store (c : Call)
  | s3 (c : S3Call)
  | manifest (c : ManifestCall)

@[reducible] def AdminCall.Ret : AdminCall → Type
  | .store c => c.Ret
  | .s3 c => c.Ret
  | .manifest c => c.Ret

/-- The cache root, the bucket and the text of the manifest file. -/
structure Site where
  world : World
  bucket : Bucket
  text : String

/-- A step of caller `t` on one of the three. -/
def AdminCall.Does (t : ThreadId) : (c : AdminCall) → Site → c.Ret → Site → Prop
  | .store c, s, r, s' => ∃ w', c.Does t s.world r w' ∧ s' = { s with world := w' }
  | .s3 c, s, r, s' => ∃ b', S3Call.Does t c s.bucket r b' ∧ s' = { s with bucket := b' }
  | .manifest c, s, r, s' => ∃ text, c.Does s.text r text ∧ s' = { s with text }

abbrev AdminOp (α : Type) := ExceptT DatastoreError (Program AdminCall AdminCall.Ret) α

def Admin.inStore : Embedding Call Call.Ret AdminCall AdminCall.Ret := ⟨.store,fun _ r => r⟩

def Admin.inS3 : Embedding S3Call S3Call.Ret AdminCall AdminCall.Ret := ⟨.s3,fun _ r => r⟩

def onStore {α : Type} (op : Op α) : AdminOp α := ExceptT.mk (op.run.embed Admin.inStore)

def onS3 {α : Type} (op : S3Op α) : AdminOp α := ExceptT.mk (op.run.embed Admin.inS3)

def onManifest (c : ManifestCall) : AdminOp c.Out := ExceptT.mk do
  return Except.mapError DatastoreError.io (← .perform (AdminCall.manifest c))

section commands
variable (T : TomlCrate) (H : Sha256) (U : UrlCrate) (ds : Datastore) (m : S3Mirror)

/-- The metadata of an upload, from the entry of the key. -/
def metadata (key : ArtifactKey) : Op MirrorObject := do
  match ← ds.entry key with
  | none => throw (.config s!"cache entry disappeared for {key.text}")
  | some entry =>
    return ⟨entry.digest,entry.bytes,none,entry.source,entry.providerIdentity,entry.fetchedAt⟩

def atomicManifest (manifest : Manifest) : AdminOp Unit := do
  onManifest .createTemp
  let text ← manifest.toTomlString T U
  onManifest (.writeTemp text)
  onManifest .syncTemp
  onManifest (.persist text)
  onManifest .syncParent

/-- One artifact: fetched, uploaded, pinned, and the manifest written. -/
def mirrorArtifact (manifest : Manifest) (artifact : Artifact) : AdminOp Manifest :=
  if artifact.provenance.license.toList.all isWhitespace then
    throw (.manifest s!"{artifact.key.text} needs a license before redistribution")
  else do
    let path ← onStore (ds.get H U artifact)
    let info ← onStore (metadata ds artifact.key)
    -- the upload reads the file behind the path
    let blob ← onStore (io (.readBlob (path.getLastD "")))
    let _ ← onS3 (m.put H U artifact.key blob info)
    let manifest ← manifest.pinSha256 artifact.key info.sha256
    atomicManifest T U manifest
    return manifest

def mirrorArtifacts (manifest : Manifest) : List Artifact → AdminOp Unit
  | [] => return ()
  | artifact :: artifacts => do
    let manifest ← mirrorArtifact T H U ds m manifest artifact
    mirrorArtifacts manifest artifacts

/-- `mirror` on a manifest file. -/
def mirrorManifest : AdminOp Unit := do
  onManifest .lock
  let text ← onManifest .read
  let manifest ← Manifest.fromTomlStr T U text
  mirrorArtifacts T H U ds m manifest manifest.artifacts

/-- What an operation returns, also where it fails. -/
def caught {α : Type} (op : S3Op α) : S3Op (Except DatastoreError α) := ExceptT.mk do
  return .ok (← op.run)

/-- The ETag that a repair replaces. -/
def repairEtag (repair : Bool) (key : ArtifactKey) : S3Op (Option String) :=
  if repair then m.observedEtag key else return none

/-- The look at one object: its metadata, the ETag for a repair, then its content. The content is
downloaded to a temporary file. -/
def examine (repair : Bool) (artifact : Artifact) : S3Op (Option String × Except DatastoreError Unit) := do
  let original ← caught (m.head artifact.key)
  let etag ← repairEtag m repair artifact.key
  file
  let verdict ← caught (checkObject H m artifact original)
  return (etag,verdict)

/-- Stores what the artifact asks for, in place of the version with that ETag if one is given. -/
def publishObject (artifact : Artifact) (etag : Option String) : AdminOp Unit :=
  if artifact.provenance.license.toList.all isWhitespace then
    throw (.manifest s!"{artifact.key.text} needs a license before redistribution")
  else do
    let path ← onStore (ds.get H U artifact)
    let info ← onStore (metadata ds artifact.key)
    -- the upload reads the file behind the path
    let blob ← onStore (io (.readBlob (path.getLastD "")))
    let _ ← onS3 (match etag with
      | some etag => m.replace H U artifact.key blob info etag
      | none => m.put H U artifact.key blob info)
    return ()

/-- Whether the object is in order afterwards. -/
def verifyObject (repair : Bool) (artifact : Artifact) : AdminOp Bool := do
  let (etag,verdict) ← onS3 (examine H m repair artifact)
  match verdict with
  | .ok () => return true
  | .error _ =>
    if repair then
      publishObject H U ds m artifact etag
      return true
    else return false

def verifyObjects (repair : Bool) (failed : ℕ) : List Artifact → AdminOp ℕ
  | [] => return failed
  | artifact :: artifacts => do
    let fine ← verifyObject H U ds m repair artifact
    verifyObjects repair (if fine then failed else failed+1) artifacts

/-- `verify --at`, with or without `--repair`. -/
def verifyS3 (repair : Bool) (manifest : Manifest) : AdminOp Unit := do
  let failed ← verifyObjects H U ds m repair 0 manifest.artifacts
  if failed > 0 then throw (.mirror s!"verification failed for {failed} artifacts") else return ()

end commands
/-- A request that displaces no object, under any path. -/
def S3Call.Gentle : S3Call → Prop
  | .putObject _ _ _ cond => cond = .ifNoneMatch
  | .completeUpload _ _ _ cond => cond = .ifNoneMatch
  | .deleteObject _ => False
  | _ => True

section effects
variable {H : Sha256} {t : ThreadId} {b b' : Bucket} {may : Version → Prop}

/-- Where a request leads, as long as what it displaces may be displaced. -/
theorem S3Call.Does.caller {c : S3Call} {r : c.Ret} {path : String} (h : S3Call.Does t c b r b')
    (hkeeps : ∀ v, b.object path = some v → b'.object path = some v ∨ may v)
    (htruthful : AllTruthful H b → AllTruthful H b') : Caller H path may t b b' := by
  by_cases hquiet : c.writes = false
  · exact .quiet hquiet h
  have hlater : Later path b b' ∧
      ∀ id u, b.uploads.lookup id = some u → u.owner ≠ t → b'.uploads.lookup id = some u := by
    cases h with
    | put met fresh answer => exact ⟨.store _ _,fun _ _ hu _ => hu⟩
    | complete found own same whole met fresh answer =>
      obtain ⟨new,hnew,hobj⟩ : Later path b (b.store _ _) := Later.store _ _
      refine ⟨⟨new,hnew,hobj⟩,fun id u hu ho => ?_⟩
      rw [AList.lookup_erase_ne]
      · exact hu
      · rintro rfl
        rw [found] at hu
        cases hu
        exact ho own
    | delete =>
      refine ⟨⟨[],rfl,fun v hv => .inl ?_⟩,fun _ _ hu _ => hu⟩
      have hv : Function.update b.object _ none path = some v := hv
      rw [Function.update_apply] at hv
      split at hv
      · cases hv
      · exact hv
    | putFails => exact ⟨.refl _ _,fun _ _ hu _ => hu⟩
    | completeFails => exact ⟨.refl _ _,fun _ _ hu _ => hu⟩
    | _ => exact absurd rfl hquiet
  exact ⟨hlater.1,hlater.2,hkeeps,htruthful⟩

/-- A request on another path, or one that is not carried out, leaves the object. -/
theorem store_object_ne {path path' : String} {v : Version} (hne : path ≠ path') :
    (b.store path' v).object path = b.object path := Function.update_of_ne hne _ _

theorem S3Call.Does.gentle_keeps {c : S3Call} {r : c.Ret} {path : String} {v : Version}
    (h : S3Call.Does t c b r b') (hc : c.Gentle) (hv : b.object path = some v) : b'.object path = some v := by
  have hstore : ∀ {path' : String} {v' : Version}, b.object path' = none →
      (b.store path' v').object path = some v := by
    intro path' v' hnone
    rw [store_object_ne]
    · exact hv
    · rintro rfl
      rw [hnone] at hv
      cases hv
  cases h with
  | put met fresh answer =>
    cases hc
    exact hstore met
  | complete found own same whole met fresh answer =>
    cases hc
    exact hstore met
  | delete => exact hc.elim
  | _ => exact hv

/-- Such a request displaces nothing wherever one looks. -/
theorem S3Call.Does.gentle {c : S3Call} {r : c.Ret} (h : S3Call.Does t c b r b') (hc : c.Gentle)
    (htruthful : AllTruthful H b → AllTruthful H b') (path : String) :
    Caller H path (fun _ => False) t b b' :=
  h.caller (fun _ hv => .inl (h.gentle_keeps hc hv)) htruthful

end effects

/-- The service accepts the object of the artifact. -/
def Accepted (m : S3Mirror) (b : Bucket) (artifact : Artifact) : Prop :=
  ∃ v info, b.object (m.path artifact.key) = some v ∧ mirrorObject v.head = .ok info ∧
    checkMetadata artifact info = .ok ()

theorem checkMetadata_of_wants {H : Sha256} {artifact : Artifact} {info : MirrorObject} {body : Bytes}
    (hwants : artifact.Wants H body) (hhex : H.hex body = info.sha256) (hbytes : body.length = info.bytes) :
    checkMetadata artifact info = .ok () := by
  have hpins := checkPins_of_accepts hhex hbytes _ hwants.2
  have hany : artifact.expectedBytes.any (· ≠ info.bytes) = false := by
    cases hn : artifact.expectedBytes with
    | none => rfl
    | some n => simp [hwants.1 n hn,hbytes]
  rw [checkMetadata,hany,hpins]
  rfl

theorem mirrorObject_of_carries {v : Version} {info : MirrorObject} (h : v.Carries info)
    (hdigest : isDigest info.sha256 = true) : ∃ found, mirrorObject v.head = .ok found ∧
      found.sha256 = info.sha256 ∧ found.bytes = info.bytes := by
  have hlen : v.head.contentLength.bind u64TryFrom = some v.body.length := rfl
  have hmeta : v.head.metadata.getD ∅ = v.metadata := rfl
  simp only [mirrorObject,hlen,hmeta,h.digest,h.size,h.length,validateMetadataDigest,if_pos hdigest,
    ne_eq,not_true_eq_false,if_false]
  exact ⟨_,rfl,rfl,rfl⟩

/-- The requests of an upload to one path, with metadata that are proposed and on one condition. -/
structure Granted (P : S3Call → Prop) (path : String) (proposed : UserMetadata → Prop) (cond : Condition) :
    Prop where
  file : P .file
  head : P (.headObject path)
  put : ∀ metadata body, proposed metadata → P (.putObject path metadata body cond)
  create : ∀ metadata, proposed metadata → P (.createUpload path metadata)
  part : ∀ id number body, P (.uploadPart path id number body)
  complete : ∀ id parts, P (.completeUpload path id parts cond)
  abort : ∀ id, P (.abortUpload path id)

section requests
variable {H : Sha256} {U : UrlCrate} {m : S3Mirror} {key : ArtifactKey} {info : MirrorObject} {blob : Bytes}
  {metadata : UserMetadata} {P : S3Call → Prop} {proposed : UserMetadata → Prop} {expected : Option String}

theorem file_admits (hfile : P .file) : file.run.Only P := .bind (.perform hfile) fun _ => trivial

theorem head_admits (hhead : P (.headObject (m.path key))) : (m.head key).run.Only P := by
  refine .bind (.perform hhead) fun r => ?_
  cases r with
  | ok output => trivial
  | error f => trivial

theorem observedEtag_admits (hhead : P (.headObject (m.path key))) : (m.observedEtag key).run.Only P := by
  refine .bind (.perform hhead) fun r => ?_
  cases r with
  | error f => trivial
  | ok output =>
    dsimp only
    split <;> trivial

theorem fetch_admits (hfile : P .file) (hget : P (.getObject (m.path key))) : (m.fetch key).run.Only P := by
  have hsink : ∀ chunks, (S3Mirror.sink chunks).run.Only P := by
    intro chunks
    induction chunks with
    | nil => trivial
    | cons chunk chunks ih => exact .bind_run (file_admits hfile) fun _ => ih
  refine .bind_run (.lift (.perform hget)) fun r => ?_
  cases r with
  | error f =>
    dsimp only
    split <;> trivial
  | ok output =>
    refine .bind_run (hsink _) fun _ => ?_
    split <;> trivial

theorem existingAfterRace_admits (hhead : P (.headObject (m.path key))) :
    (m.existingAfterRace key info).run.Only P := by
  refine .bind_run (head_admits hhead) fun found => ?_
  cases found with
  | none => trivial
  | some existing => exact .lift_except _

theorem putRequest_admits (hfile : P .file) (hhead : P (.headObject (m.path key)))
    (hput : ∀ body, P (.putObject (m.path key) metadata body (S3Mirror.condition expected)))
    {again : Option (S3Op PutOutcome)} (hagain : ∀ op, again = some op → op.run.Only P) :
    (m.putRequest key blob info metadata expected again).run.Only P := by
  refine .bind_run (.lift (.perform hfile)) fun opened => ?_
  cases opened with
  | error e => trivial
  | ok _ =>
    refine .bind_run (.lift (.perform (hput _))) fun r => ?_
    cases r with
    | ok _ => trivial
    | error f =>
      simp only
      split
      · exact existingAfterRace_admits hhead
      · split
        · cases again with
          | none => trivial
          | some op => exact hagain op rfl
        · trivial

theorem putObject_admits (hfile : P .file) (hhead : P (.headObject (m.path key)))
    (hput : ∀ body, P (.putObject (m.path key) metadata body (S3Mirror.condition expected))) (left : ℕ) :
    (m.putObject key blob info metadata expected left).run.Only P := by
  induction left with
  | zero => exact putRequest_admits hfile hhead hput fun op hop => by cases hop
  | succ left ih =>
    refine putRequest_admits hfile hhead hput fun op hop => ?_
    cases hop
    exact ih

theorem uploadParts_admits {id : String} (hfile : P .file)
    (hpart : ∀ number body, P (.uploadPart (m.path key) id number body)) {bytes : ℕ} (fuel : ℕ) : ∀ {offset : ℕ} {parts : List CompletedPart},
      (m.uploadParts key blob bytes id fuel offset parts).run.Only P := by
  induction fuel with
  | zero => exact trivial
  | succ fuel ih =>
    intro offset parts
    rw [S3Mirror.uploadParts]
    split
    · refine .bind_run (.lift (.perform hfile)) fun opened => ?_
      cases opened with
      | error e => trivial
      | ok _ =>
        simp only
        split
        · trivial
        · refine .bind_run (.lift (.perform (hpart _ _))) fun r => ?_
          cases r with
          | error f => trivial
          | ok returned =>
            obtain ⟨_ | etag,_ | checksum⟩ := returned
            · trivial
            · trivial
            · trivial
            · exact ih
    · trivial

theorem multipart_admits (h : Granted P (m.path key) proposed (S3Mirror.condition expected))
    (hmeta : proposed metadata) : (m.multipart key blob info metadata expected).run.Only P := by
  refine .bind_run (.lift (.perform (h.create _ hmeta))) fun created => ?_
  match created with
  | .error f => trivial
  | .ok none => trivial
  | .ok (some id) =>
    have hall : (m.uploadAll key blob info id expected).run.Only P := by
      refine .bind_run (uploadParts_admits h.file (h.part id) _) fun parts =>
        .bind_run (.lift (.perform (h.complete _ _))) fun r => ?_
      cases r with
      | ok _ => trivial
      | error f =>
        simp only
        split
        · exact existingAfterRace_admits h.head
        · trivial
    refine .bind hall fun result => ?_
    match result with
    | .ok .stored => trivial
    | .ok .alreadyPresent => exact .bind (.perform (h.abort _)) fun _ => trivial
    | .error e => exact .bind (.perform (h.abort _)) fun _ => trivial

/-- An upload makes only these requests. -/
theorem write_admits (h : Granted P (m.path key) proposed (S3Mirror.condition expected))
    (hproposed : ∀ metadata, uploadMetadata U info = .ok metadata → proposed metadata) :
    (m.write H U key blob info expected).run.Only P := by
  refine .bind_run (.lift_except _) fun _ => .bind_run ?_ fun matching => ?_
  · refine .bind_run (file_admits h.file) fun _ => ?_
    split
    · trivial
    · exact .bind_run (file_admits h.file) fun _ => trivial
  · cases matching with
    | false => trivial
    | true =>
      refine .except_bind fun metadata hmeta => ?_
      have hvalid := hproposed metadata hmeta
      have hrest : (if info.bytes > partBytes then m.multipart key blob info metadata expected
          else m.putObject key blob info metadata expected 2).run.Only P := by
        split
        · exact multipart_admits h hvalid
        · exact putObject_admits h.file h.head (fun _ => h.put _ _ hvalid) 2
      cases expected with
      | some etag => exact hrest
      | none =>
        refine .bind_run (head_admits h.head) fun found => ?_
        cases found with
        | none => exact hrest
        | some existing => exact .lift_except _

/-- A put makes only requests that displace nothing. -/
theorem put_gentle : (m.put H U key blob info).run.Only S3Call.Gentle := by
  have hgranted : Granted S3Call.Gentle (m.path key) (fun _ => True) (S3Mirror.condition none) :=
    ⟨trivial,trivial,fun _ _ _ => rfl,fun _ _ => trivial,fun _ _ _ => trivial,fun _ _ => rfl,fun _ => trivial⟩
  exact write_admits hgranted fun _ _ => trivial

end requests
end StarfieldDatastore
