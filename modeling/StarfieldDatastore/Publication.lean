import StarfieldDatastore.Streaming
import StarfieldDatastore.Integrity
import StarfieldDatastore.Interleaving.Converse

/-! Every end of a publication on a filesystem that works: what is refused changes neither
index nor blobs, and what is accepted adds one sidecar and one blob. -/
namespace StarfieldDatastore
open Interleaving

section works
variable {t : ThreadId} {w w' : World} {α : Type}

theorem Call.Succeeds.works {c : Call} {r : c.Ret} (h : c.Succeeds t w r w') : c.Works t w r w' := by
  cases c with
  | fs c =>
    obtain ⟨x,out,rfl,hx⟩ := h
    exact ⟨x,hx⟩
  | net c => exact h
  | cache c => exact h

theorem World.runFs_ok {c : FsCall} {x x' : c.Choice} {out : c.Out} {r : Except IoError c.Out} {u : World}
    (hcan : w.runFs t c x = some (.ok out,u)) (h : w.runFs t c x' = some (r,w')) : ∃ out', r = .ok out' := by
  cases c <;> simp only [World.runFs] at hcan h <;> repeat' split at h
  all_goals first
    | (cases h; exact ⟨_,rfl⟩)
    | simp_all

/-- A filesystem call that can succeed does not fail without a fault. -/
theorem Call.Works.succeeds {c : Call} {r : c.Ret} (hcan : ∃ r u, c.Succeeds t w r u)
    (h : c.Works t w r w') : c.Succeeds t w r w' := by
  cases c with
  | net c => exact h
  | cache c => exact h
  | fs c =>
    obtain ⟨r₁,u,x₁,out,rfl,h₁⟩ := hcan
    obtain ⟨x,hx⟩ := h
    obtain ⟨out',rfl⟩ := World.runFs_ok h₁ hx
    exact ⟨x,out',rfl,hx⟩

theorem total_worked {p : Prog α} {Q : α → World → Prop} (h : p.Total (Call.Succeeds t) Q w) :
    p.Total (Call.Works t) Q w :=
  h.restep fun _ _ hcan => by
    obtain ⟨r,u,hu⟩ := hcan
    exact ⟨⟨r,u,hu.works⟩,fun _ _ hw => hw.succeeds ⟨r,u,hu⟩⟩

end works

/-- No blob is changed or removed. -/
def Spared (w w' : World) : Prop :=
  ∀ digest content, w.blobs.lookup digest = some content → w'.blobs.lookup digest = some content

/-- The sidecar of a key can be put in its place: no directory is there, and no file where a
directory would have to be. -/
def World.Open (w : World) (key : ArtifactKey) : Prop :=
  w.dirs (indexPath key) = false ∧ w.blocked (indexPath key) = false

/-- The body has come to its address, or what was there already has the same hash. -/
inductive Landed (H : Sha256) (body : Bytes) (w w' : World) : Prop
  | there {old : Bytes} (there : w.blobs.lookup (H.hex body) = some old) (hex : H.hex old = H.hex body)
      (same : w'.blobs = w.blobs)
  | moved (free : w.blobs.lookup (H.hex body) = none) (blobs : w'.blobs = w.blobs.insert (H.hex body) body)

theorem Landed.blob {H : Sha256} {body : Bytes} {w w' : World} (h : Landed H body w w') :
    ∃ blob, Blob H body w w' blob := by
  cases h with
  | @there old there hex same => exact ⟨old,same ▸ there,hex,.inr there⟩
  | moved free blobs => exact ⟨body,blobs ▸ AList.lookup_insert _,rfl,.inl rfl⟩

theorem Landed.intact {H : Sha256} {body : Bytes} {w w' : World} (h : Landed H body w w') :
    ∀ old, w.blobs.lookup (H.hex body) = some old → H.hex old = H.hex body := by
  intro old hold
  cases h with
  | there there hex _ =>
    cases hold.symm.trans there
    exact hex
  | moved free _ => cases free.symm.trans hold

theorem Landed.spared {H : Sha256} {body : Bytes} {w w' : World} (h : Landed H body w w') : Spared w w' := by
  intro digest content hcontent
  cases h with
  | there _ _ same => exact same ▸ hcontent
  | moved free blobs =>
    have hne : digest ≠ H.hex body := by
      rintro rfl
      rw [free] at hcontent
      cases hcontent
    rw [blobs,AList.lookup_insert_ne hne]
    exact hcontent

/-- Only the blobs matter. -/
theorem Landed.congr {H : Sha256} {body : Bytes} {w w' u u' : World} (h : Landed H body w w')
    (hw : w.blobs = u.blobs) (hw' : w'.blobs = u'.blobs) : Landed H body u u' := by
  cases h with
  | there there hex same => exact .there (hw ▸ there) hex (hw'.symm.trans (same.trans hw))
  | moved free blobs => exact .moved (hw ▸ free) (hw'.symm.trans (hw ▸ blobs))

/-- How a body is moved to its address. -/
inductive Laid (H : Sha256) (body : Bytes) (w : World) : Except DatastoreError (Option (List String)) → World → Prop
  | occupied {old : Bytes} {u : World} (there : w.blobs.lookup (H.hex body) = some old)
      (corrupt : H.hex old ≠ H.hex body) (same : Untouched w u) : Laid H body w (.ok none) u
  | placed {u : World} (landed : Landed H body w u) (index : u.index = w.index) (dirs : u.dirs = w.dirs)
      (locks : u.locks = w.locks) : Laid H body w (.ok (some (blobPath (H.hex body)))) u

/-- One sidecar more, and its blob. -/
structure Added (H : Sha256) (key : ArtifactKey) (entry : IndexEntry) (body : Bytes) (w w' : World) : Prop where
  landed : Landed H body w w'
  index : w'.index = w.index.insert (indexPath key) (.parsed entry)
  dirs : w'.dirs = fun dir => w.dirs dir || World.isAncestor dir (indexPath key)
  locks : w'.locks = w.locks

/-- How a publication ends. -/
inductive PublishEnds (H : Sha256) (artifact : Artifact) (body : Bytes) (entry : IndexEntry) (w : World) :
    Except DatastoreError (List String) → World → Prop
  | rejected {failure : CheckFailure} {u : World} (unwanted : ¬ artifact.Wants H body) (same : Untouched w u) :
      PublishEnds H artifact body entry w (.error (.contentRejected artifact.key failure)) u
  | occupied {failure : CheckFailure} {old : Bytes} {u : World} (there : w.blobs.lookup (H.hex body) = some old)
      (corrupt : H.hex old ≠ H.hex body) (same : Untouched w u) :
      PublishEnds H artifact body entry w (.error (.contentRejected artifact.key failure)) u
  | refused {e : IoError} {u : World} (wanted : artifact.Wants H body) (closed : ¬ w.Open artifact.key)
      (landed : Landed H body w u) (index : u.index = w.index) (locks : u.locks = w.locks) : PublishEnds H artifact body entry w (.error (.io e)) u
  | added {u : World} (wanted : artifact.Wants H body) (free : w.Open artifact.key)
      (added : Added H artifact.key entry body w u) :
      PublishEnds H artifact body entry w (.ok (blobPath (H.hex body))) u

section publication
variable {H : Sha256} {t : ThreadId} {w₀ w : World} {artifact : Artifact} {tmp : ℕ} {body : Bytes}
  {key : ArtifactKey} {entry : IndexEntry}

theorem layout_publish_laid (hfile : w.tmp.lookup tmp = some ⟨t,body⟩) :
    (Layout.publish H tmp (H.hex body)).run.Total (Call.Succeeds t) (Laid H body w) w := by
  refine Program.Total.bind (Program.Total.bind (total_fs
    (w.blobs.lookup (H.hex body)).isSome w (fun _ => rfl) ?_))
  cases hold : w.blobs.lookup (H.hex body) with
  | some old =>
    refine Program.Total.bind (total_io old w (fun _ => by simp only [World.runFs,hold]) ?_)
    refine dropped_total ?_
    by_cases hhex : H.hex old = H.hex body
    · simp only [Except.map,if_pos hhex]
      exact .placed (.there hold hhex rfl) rfl rfl rfl
    · simp only [Except.map,if_neg hhex]
      exact .occupied hold hhex ⟨rfl,rfl,rfl,rfl⟩
  | none =>
    refine Program.Total.bind (total_io () w (fun _ => rfl) (total_io () w (fun _ => rfl)
      (total_io_last () { w with blobs := w.blobs.insert (H.hex body) body, tmp := w.tmp.erase tmp }
        (fun _ => by simp only [World.runFs,hfile]) ?_)))
    exact total_io () _ (fun _ => rfl) (.placed (.moved hold rfl) rfl rfl rfl)

/-- The sidecar is in its place, or something is in the way. -/
theorem writeEntry_works : (Layout.writeEntry key entry).run.Total (Call.Works t) (fun out u =>
    out = .ok () ∧ w.Open key ∧ u = { w with
      index := w.index.insert (indexPath key) (.parsed entry)
      dirs := fun dir => w.dirs dir || World.isAncestor dir (indexPath key) } ∨
    (∃ e, out = .error (.io e)) ∧ ¬ w.Open key ∧ u.index = w.index ∧ u.blobs = w.blobs ∧ u.locks = w.locks) w := by
  cases hblocked : w.blocked (indexPath key) with
  | true =>
    have hclosed : ¬ w.Open key := fun h => by rw [h.2] at hblocked; cases hblocked
    cases hparent : w.index.keys.any fun file => World.isParent file (indexPath key) with
    | true =>
      exact total_works_io (.error World.fileExists) (fun _ => by simp only [World.runFs,hparent]; rfl)
        (.inr ⟨⟨_,rfl⟩,hclosed,rfl,rfl,rfl⟩)
    | false =>
      exact total_works_io (.error World.notDirectory)
        (fun _ => by simp only [World.runFs,hparent,hblocked]; rfl) (.inr ⟨⟨_,rfl⟩,hclosed,rfl,rfl,rfl⟩)
  | false =>
    let made : World := { w with dirs := fun dir => w.dirs dir || World.isAncestor dir (indexPath key) }
    have hmake : ∀ x, w.runFs t (.createIndexDirs (indexPath key)) x = some (.ok (),made) := by
      intro x
      simp only [World.runFs,hblocked,not_parent_of_not_blocked hblocked]
      rfl
    have hstage : ∀ x, made.runFs t (.stageSidecar (indexPath key)) x = some (.ok (),made) := fun _ => rfl
    refine total_works_io (.ok ()) hmake (total_works_io (.ok ()) hstage ?_)
    have hmade : made.dirs (indexPath key) = w.dirs (indexPath key) := by
      simp only [made,not_isAncestor_self,Bool.or_false]
    cases hdirs : w.dirs (indexPath key) with
    | true =>
      have hpersist : ∀ x, made.runFs t (.persistSidecar (indexPath key) entry) x =
          some (.error World.isDirectory,made) := by
        intro x
        simp only [World.runFs,hmade,hdirs,if_true]
      refine total_works_io (.error World.isDirectory) hpersist (.inr ⟨⟨_,rfl⟩,fun h => ?_,rfl,rfl,rfl⟩)
      rw [h.1] at hdirs
      cases hdirs
    | false =>
      have hpersist : ∀ x, made.runFs t (.persistSidecar (indexPath key) entry) x =
          some (.ok (),{ made with index := made.index.insert (indexPath key) (.parsed entry) }) := by
        intro x
        simp only [World.runFs,hmade,hdirs]
        rfl
      refine total_works_io (.ok ()) hpersist ?_
      exact total_worked (total_io_last () _ (fun _ => rfl) (.inl ⟨rfl,⟨hdirs,hblocked⟩,rfl⟩))

theorem setLock_back (hfree : w.locks Layout.storeLockName = none) {locks : String → Option ThreadId}
    (h : locks = (w.setLock Layout.storeLockName (some t)).locks) :
    Function.update locks Layout.storeLockName none = w.locks := by
  rw [h,World.setLock,Function.update_idem]
  exact Function.update_eq_self_iff.mpr hfree.symm

/-- Validation refuses a body by rejecting it. -/
theorem validate_rejects (bytes : ℕ) (digest : String) :
    (validate H artifact (.readTmp tmp) id bytes digest).run.Returns fun out => ∀ e, out = .error e →
      ∃ failure, e = .contentRejected artifact.key failure := by
  have hpins : ∀ e, validatePins artifact bytes digest = .error e →
      ∃ failure, e = .contentRejected artifact.key failure := by
    intro e he
    unfold validatePins at he
    split at he
    · cases he
      exact ⟨_,rfl⟩
    · split at he
      · cases he
        exact ⟨_,rfl⟩
      · cases he
  unfold validate
  cases hpin : validatePins artifact bytes digest with
  | error e =>
    intro e' he'
    cases he'
    exact hpins e hpin
  | ok passed =>
    intro r
    cases r with
    | error e =>
      intro e he
      cases he
      exact ⟨_,rfl⟩
    | ok content =>
      intro e he
      change rejectFailure artifact (artifact.check.withoutSha256.checkFile H content) = .error e at he
      cases hcheck : artifact.check.withoutSha256.checkFile H content with
      | ok passed =>
        rw [hcheck] at he
        cases he
      | error failure =>
        rw [hcheck] at he
        cases he
        exact ⟨_,rfl⟩

theorem publish_ends (hw : Untouched w₀ w) (hfile : w.tmp.lookup tmp = some ⟨t,body⟩)
    (hfree : w₀.locks Layout.storeLockName = none) (hdigest : entry.digest = H.hex body)
    (hbytes : entry.bytes = body.length) :
    (publish H artifact tmp entry).run.Total (Call.Works t) (PublishEnds H artifact body entry w₀) w := by
  unfold publish
  rw [hbytes,hdigest]
  refine Program.Total.bind (((total_worked (validate_total hfile)).returns (validate_rejects _ _)).mono ?_)
  rintro out u ⟨⟨rfl,hwants⟩,hrejects⟩
  cases out with
  | error e =>
    obtain ⟨failure,rfl⟩ := hrejects e rfl
    refine total_worked (dropped_total (.rejected (fun h => ?_) (hw.erase tmp)))
    cases hwants.mpr h
  | ok passed =>
    have hwants := hwants.mp rfl
    have hlocks : u.locks Layout.storeLockName = none := hw.locks ▸ hfree
    have hlock : ∀ x, u.runFs t (.lock Layout.storeLockName) x =
        some (.ok (),u.setLock Layout.storeLockName (some t)) := by
      intro x
      simp only [World.runFs,hlocks,if_true]
    refine total_works (.ok ()) hlock (Program.Total.bind ?_)
    unfold publishLocked
    rw [hdigest]
    have hlaid := layout_publish_laid (H := H) (w := u.setLock Layout.storeLockName (some t)) hfile
    refine Program.Total.bind_run ((total_worked hlaid).mono ?_)
    have hheld : (u.setLock Layout.storeLockName (some t)).locks Layout.storeLockName = some t := by
      simp only [World.setLock,Function.update_self]
    rintro out v hv
    cases hv with
    | occupied there corrupt same =>
      have hunlock : ∀ x, v.runFs t (.unlock Layout.storeLockName) x =
          some (.ok (),v.setLock Layout.storeLockName none) := by
        intro x
        simp only [World.runFs,same.locks,hheld,if_true]
      refine total_works (.ok ()) hunlock (.occupied (hw.blobs ▸ there) corrupt ?_)
      exact ⟨same.blobs.trans hw.blobs,same.index.trans hw.index,same.dirs.trans hw.dirs,
        (setLock_back hlocks same.locks).trans hw.locks⟩
    | placed landed index dirs locks =>
      have hlanded : Landed H body w₀ v := landed.congr hw.blobs rfl
      have hopen : v.Open artifact.key ↔ w₀.Open artifact.key := by
        unfold World.Open World.blocked
        rw [dirs,index]
        show u.dirs _ = false ∧ (u.index.keys.any _) = false ↔ _
        rw [hw.dirs,hw.index]
      refine Program.Total.bind_run (writeEntry_works.mono ?_)
      rintro out x (⟨rfl,hfreeway,rfl⟩ | ⟨⟨e,rfl⟩,hclosed,hindex,hblobs,hlocks'⟩)
      · have hunlock : ∀ y, World.runFs t { v with
              index := v.index.insert (indexPath artifact.key) (.parsed entry)
              dirs := fun dir => v.dirs dir || World.isAncestor dir (indexPath artifact.key) }
            (.unlock Layout.storeLockName) y = some (.ok (),World.setLock { v with
              index := v.index.insert (indexPath artifact.key) (.parsed entry)
              dirs := fun dir => v.dirs dir || World.isAncestor dir (indexPath artifact.key) }
              Layout.storeLockName none) := by
          intro y
          simp only [World.runFs,locks,hheld,if_true]
        refine total_works (.ok ()) hunlock (.added hwants (hopen.mp hfreeway) ⟨?_,?_,?_,?_⟩)
        · exact hlanded.congr rfl rfl
        · show v.index.insert _ _ = _
          rw [index,← hw.index]
          rfl
        · show (fun dir => v.dirs dir || _) = _
          rw [dirs,← hw.dirs]
          rfl
        · exact (setLock_back hlocks locks).trans hw.locks
      · have hunlock : ∀ y, x.runFs t (.unlock Layout.storeLockName) y =
            some (.ok (),x.setLock Layout.storeLockName none) := by
          intro y
          simp only [World.runFs,hlocks',locks,hheld,if_true]
        refine total_works (.ok ()) hunlock (.refused hwants (fun h => hclosed (hopen.mpr h)) ?_ ?_ ?_)
        · exact hlanded.congr rfl hblobs.symm
        · exact (hindex.trans index).trans hw.index
        · exact (setLock_back hlocks (hlocks'.trans locks)).trans hw.locks

theorem PublishEnds.locks {out : Except DatastoreError (List String)} {u : World}
    (h : PublishEnds H artifact body entry w out u) : u.locks = w.locks := by
  cases h with
  | rejected _ same => exact same.locks
  | occupied _ _ same => exact same.locks
  | refused _ _ _ _ locks => exact locks
  | added _ _ added => exact added.locks

/-- A lock that is held around the publication makes no difference. -/
theorem PublishEnds.outside {name : String} {out : Except DatastoreError (List String)} {u : World}
    (hfree : w.locks name = none) (h : PublishEnds H artifact body entry (w.setLock name (some t)) out u) :
    PublishEnds H artifact body entry w out (u.setLock name none) := by
  have hback : Function.update u.locks name none = w.locks := by
    rw [h.locks,World.setLock,Function.update_idem]
    exact Function.update_eq_self_iff.mpr hfree.symm
  cases h with
  | rejected unwanted same => exact .rejected unwanted ⟨same.blobs,same.index,same.dirs,hback⟩
  | occupied there corrupt same => exact .occupied there corrupt ⟨same.blobs,same.index,same.dirs,hback⟩
  | refused wanted closed landed index _ => exact .refused wanted closed (landed.congr rfl rfl) index hback
  | added wanted free added =>
    exact .added wanted free ⟨added.landed.congr rfl rfl,added.index,added.dirs,hback⟩

end publication
end StarfieldDatastore
