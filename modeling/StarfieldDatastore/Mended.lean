import StarfieldDatastore.Get
import StarfieldDatastore.Integrity
import StarfieldDatastore.Repair
import StarfieldDatastore.Interleaving.Replay

/-! A repair of the local cache that succeeds: the next verification finds nothing. -/
namespace StarfieldDatastore
open Interleaving

/-- The sidecar of `key` is `entry`, and `content` is the blob that it names. -/
structure Filed (H : Sha256) (key : ArtifactKey) (entry : IndexEntry) (content : Bytes) (w : World) : Prop where
  sidecar : w.index.lookup (indexPath key) = some (.parsed entry)
  blob : w.blobs.lookup entry.digest = some content
  hex : H.hex content = entry.digest

/-- A sidecar that stays keeps its blob as it is. -/
def Keeps (H : Sha256) (w w' : World) : Prop :=
  ∀ key entry content, Filed H key entry content w → w'.index.lookup (indexPath key) = some (.parsed entry) →
    Filed H key entry content w'

/-- A thread that runs alone, with SHA-256 telling apart what is on disk. -/
def keeping (H : Sha256) (t : ThreadId) : Setting Call Call.Ret World where
  step := Alone H t
  rely := Eq
  guar := Keeps H
  rely_refl _ := rfl
  rely_trans := Eq.trans

section keeping
variable {H : Sha256} {U : UrlCrate} {ds : Datastore} {artifact : Artifact} {t : ThreadId} {w w' : World}
  {key : ArtifactKey} {entry : IndexEntry} {content : Bytes} {α : Type} {events : List Event}

theorem Keeps.of_blobs (hb : w'.blobs = w.blobs) : Keeps H w w' :=
  fun _ _ _ h hs => ⟨hs,hb ▸ h.blob,h.hex⟩

theorem guarded_keeping : Guarded H False t (keeping H t) where
  does h := h.1
  rely h := by
    subst h
    exact .refl t _
  guar h := .of_blobs (by rw [h.rest])
  drops h := h.elim
  store h hs := by
    subst h
    exact ⟨hs,rfl,rfl⟩
  locking _ := .of_blobs rfl
  unlocking _ := .of_blobs rfl
  publishing {w tmp body} _ _ hunique := by
    intro key entry content h hs
    have hexact : Exact H (keeping H t) := fun hstep => hstep.2
    refine ⟨hs,?_,h.hex⟩
    by_cases he : entry.digest = H.hex body
    · rw [he,AList.lookup_insert]
      exact congrArg some (hunique hexact content (he ▸ h.blob) (h.hex.trans he)).symm
    · simpa only [AList.lookup_insert_ne he] using h.blob
  indexing _ _ _ _ := .of_blobs rfl
  unindexing _ := .of_blobs rfl
  unlinking {w digest} _ hd := by
    intro key entry content h hs
    refine ⟨hs,?_,h.hex⟩
    simpa only [AList.lookup_erase_ne (hd key entry h.sidecar)] using h.blob

theorem Filed.of_runs {p : Prog α} {Q : α → World → Prop} {a : α} (h : Filed H key entry content w)
    (hp : p.Holds (keeping H t) Q w) (hspares : p.Only (Call.spares (indexPath key)))
    (hr : p.Runs (Alone H t) w events a w') : Filed H key entry content w' := by
  refine (hp.caused hspares).kept_of_runs (fun s s' hg hs => ?_) hr h
  obtain ⟨hkeeps,c,r,hc,hstep⟩ := hg
  refine hkeeps key entry content hs ?_
  exact ((congrFun hstep.1.index _).trans (hc _ _)).trans hs.sidecar

theorem Filed.lasting (key : ArtifactKey) (entry : IndexEntry) (content : Bytes) :
    Lasting H U t (Alone H t) key (Filed H key entry content) where
  does _ _ _ _ h := h.1
  still h hb hi := ⟨hi ▸ h.sidecar,hb ▸ h.blob,h.hex⟩
  get hp hr h := h.of_runs (get_holds guarded_keeping empty_false) (get_spares hp) hr
  remove hp hr h := h.of_runs (remove_holds guarded_keeping _ empty_false)
    (remove_spares fun he => hp (indexPath_injective he)) hr

/-- The cache has a sidecar for the artifact, with a blob that is what the artifact asks for. -/
def Served (H : Sha256) (artifact : Artifact) (w : World) : Prop :=
  ∃ entry content, Filed H artifact.key entry content w ∧ content.length = entry.bytes ∧
    artifact.Wants H content

theorem Served.lasting (hkey : key = artifact.key) : Lasting H U t (Alone H t) key (Served H artifact) where
  does _ _ _ _ h := h.1
  still := by
    rintro w w' ⟨entry,content,h,hs⟩ hb hi
    exact ⟨entry,content,(Filed.lasting (U := U) (t := t) _ _ _).still h hb hi,hs⟩
  get := by
    rintro ds artifact' w events out w' hp hr ⟨entry,content,h,hs⟩
    subst hkey
    exact ⟨entry,content,(Filed.lasting _ _ _).get hp hr h,hs⟩
  remove := by
    rintro ds key' w events out w' hp hr ⟨entry,content,h,hs⟩
    subst hkey
    exact ⟨entry,content,(Filed.lasting (U := U) _ _ _).remove hp hr h,hs⟩

/-- The body of an operation that succeeded under a lock ends with the index as it then is. -/
theorem withLock_runs {name : String} {body : Op α} {a : α}
    (hr : (withLock name body).run.Runs (Call.Does t) w events (.ok a) w') :
    ∃ u inner v, body.run.Runs (Call.Does t) u inner (.ok a) v ∧ w'.index = v.index ∧ w'.blobs = v.blobs := by
  obtain ⟨e,he,-⟩ | ⟨before,_,u,after,rfl,-,hrest⟩ := Program.Runs.bind_run_cases hr
  · cases he
  obtain ⟨inner,r,v,after,rfl,hbody,hrest⟩ := Program.Runs.bind_cases hrest
  cases hrest with
  | call head tail =>
    cases tail
    obtain ⟨hb,hi⟩ := head.still rfl
    exact ⟨u,inner,v,hbody,hi,hb⟩

theorem readEntry_runs {layout : Layout} {found : IndexEntry}
    (hr : (layout.readEntry key).run.Runs (Call.Does t) w events (.ok (some found)) w') :
    w.index.lookup (indexPath key) = some (.parsed found) := by
  obtain ⟨e,he,-⟩ | ⟨before,sidecar,u,after,rfl,hread,hrest⟩ := Program.Runs.bind_run_cases hr
  · cases he
  have hsidecar : sidecar = w.index.lookup (indexPath key) := by
    cases hread with
    | @call _ _ _ r _ _ _ _ head tail =>
      cases r with
      | error e => cases tail
      | ok out =>
        cases tail
        exact head.readSidecar
  rw [← hsidecar]
  cases sidecar with
  | none => cases hrest
  | some sidecar =>
    cases sidecar with
    | malformed detail => cases hrest
    | parsed entry =>
      simp only at hrest
      split at hrest
      · cases hrest
        rfl
      · cases hrest

theorem localHit_path {path : List String}
    (h : (Datastore.localHit H artifact entry).run.Finishes events (.ok (some path))) :
    path = blobPath entry.digest := by
  obtain ⟨e₁,found,r₁,rfl,-,h⟩ := h.bind_run_ok
  split at h
  · cases h
  split at h
  · cases h
  obtain ⟨e₂,length,r₂,rfl,-,h⟩ := h.bind_run_ok
  split at h
  · obtain ⟨_,_,_,-,h,-⟩ := h.bind_run_ok
    cases h
  obtain ⟨e₃,actual,r₃,rfl,-,h⟩ := h.bind_run_ok
  split at h
  · obtain ⟨_,_,_,-,h,-⟩ := h.bind_run_ok
    cases h
  obtain ⟨e₄,_,r₄,rfl,-,h⟩ := h.bind_run_ok
  cases h
  rfl

theorem lookupLocal_runs {path : List String} {found : IndexEntry}
    (hr : (ds.lookupLocal H artifact).run.Runs (Call.Does t) w events (.ok (some (path,found))) w') :
    w'.index.lookup (indexPath artifact.key) = some (.parsed found) ∧ path = blobPath found.digest := by
  have hi := (still_of_runs (lookupLocal_only FsCall.still_of_looks) hr).2
  obtain ⟨e,he,-⟩ | ⟨before,entry,u,after,rfl,hread,hrest⟩ := Program.Runs.bind_run_cases hr
  · cases he
  cases entry with
  | none => cases hrest
  | some entry =>
    obtain ⟨e,he,-⟩ | ⟨middle,hit,v,last,rfl,hhit,hrest⟩ := Program.Runs.bind_run_cases hrest
    · cases he
    cases hit with
    | none => cases hrest
    | some path' =>
      cases hrest
      rw [hi]
      exact ⟨readEntry_runs hread,localHit_path hhit.finishes⟩

/-- A `get` that succeeds has left the sidecar that names what it returns. -/
theorem getWithBudget_recorded {budget : Option ℕ} {path : List String} {outcome : ResolveOutcome}
    (hr : (ds.getWithBudget H U artifact budget).run.Runs (Call.Does t) w events (.ok (path,outcome)) w') :
    ∃ entry, w'.index.lookup (indexPath artifact.key) = some (.parsed entry) ∧
      path = blobPath entry.digest ∧ entry.bytes = outcome.bytes := by
  rw [getWithBudget_eq] at hr
  obtain ⟨u,inner,v,hbody,hi,-⟩ := withLock_runs hr
  rw [hi]
  obtain ⟨e,he,-⟩ | ⟨before,found,x,after,rfl,hlook,hrest⟩ := Program.Runs.bind_run_cases hbody
  · cases he
  cases found with
  | some found =>
    obtain ⟨path',entry⟩ := found
    obtain ⟨hentry,hpath⟩ := lookupLocal_runs hlook
    simp only at hrest
    split at hrest
    · cases hrest
    · cases hrest
      exact ⟨entry,hentry,hpath,rfl⟩
  | none =>
    simp only at hrest
    split at hrest
    · cases hrest
    · obtain ⟨entry,hregisters,hbytes,-⟩ := fetchChain_fetches hrest.finishes
      refine ⟨entry,?_,hregisters.path,hbytes⟩
      rw [congrFun (index_of_runs hrest) (indexPath artifact.key)]
      exact hregisters.wrote.replay _

/-- What a `get` returns is served from then on. -/
theorem served_of_get {path : List String}
    (hr : (ds.get H U artifact).run.Runs (Alone H t) w events (.ok path) w') : Served H artifact w' := by
  obtain ⟨e,he,-⟩ | ⟨before,⟨path',outcome⟩,u,after,rfl,hget,hrest⟩ := Program.Runs.bind_run_cases hr
  · cases he
  cases hrest
  have hresolved := Program.Holds.of_runs (getWithBudget_holds guarded_alone none empty_false) hget
  obtain ⟨content,hgood⟩ := ((hresolved.served _ outcome rfl).1).good
  obtain ⟨entry,hentry,hpath,hbytes⟩ := getWithBudget_recorded (hget.mono fun _ _ _ _ h => h.1)
  have hhex : H.hex content = entry.digest := by
    have hname := hgood.name
    rw [hpath] at hname
    simpa [blobPath] using hname.symm
  refine ⟨entry,content,⟨hentry,?_,hhex⟩,?_,hgood.wants⟩
  · have hfile := hgood.file
    rw [hpath] at hfile
    simpa [World.fileAt,blobPath] using hfile
  · rw [hbytes,← hgood.bytes]


/-- A thread alone holds the locks that are held. -/
def Owned (t : ThreadId) (w : World) : Prop := ∀ name, w.locks name = none ∨ w.locks name = some t

theorem Owned.setLock {name : String} {o : Option ThreadId} (h : Owned t w) (ho : o = none ∨ o = some t) :
    Owned t (w.setLock name o) := by
  intro name'
  by_cases hn : name' = name
  · subst hn
    simpa only [World.setLock,Function.update_self] using ho
  · simpa only [World.setLock,Function.update_of_ne hn] using h name'

theorem Owned.release (h : Owned t w) (name : String) : (w.release t).locks name = none := by
  simp only [World.release]
  split
  · rfl
  · rename_i hn
    exact (h name).resolve_right hn

theorem Call.Does.owned {c : Call} {r : c.Ret} (h : c.Does t w r w') (hw : Owned t w) : Owned t w' := by
  have of_eq : w'.locks = w.locks → Owned t w' := fun he name => he ▸ hw name
  cases c with
  | net c => exact of_eq (by rw [h.readOnly rfl])
  | fs c =>
    rcases h with ⟨x,hx⟩ | hf
    · simp only [World.exec] at hx
      cases c with
      | lock name =>
        simp only [World.runFs] at hx
        split at hx
        · cases hx
          exact hw.setLock (.inr rfl)
        · cases hx
      | unlock name =>
        simp only [World.runFs] at hx
        split at hx
        · cases hx
          exact hw.setLock (.inl rfl)
        · cases hx
          exact hw
      | _ =>
        simp only [World.runFs] at hx
        repeat' split at hx
        all_goals first
          | (cases hx; exact of_eq rfl)
          | cases hx
    · cases hf
      · exact hw
      · exact of_eq rfl
  | cache c =>
    rcases h with ⟨x,hx⟩ | hf
    · simp only [World.exec] at hx
      cases c with
      | unwind =>
        cases hx
        exact fun name => .inl (Owned.release (w := w.dropOwned t) hw name)
      | writeState state reason =>
        cases hx
        cases reason <;> exact of_eq rfl
      | _ =>
        simp only [World.runCache] at hx
        repeat' split at hx
        all_goals first
          | (cases hx; exact of_eq rfl)
          | cases hx
    · cases hf

theorem owned_of_runs {p : Prog α} {a : α} (h : p.Runs (Call.Does t) w events a w') (hw : Owned t w) :
    Owned t w' := by
  induction h with
  | done a s => exact hw
  | call head _ ih => exact ih (head.owned hw)


/-- Nothing but locks has changed. -/
theorem unmoved_of_runs {p : Prog α} {a : α} (hp : p.Only fun c => c.still = true)
    (h : p.Runs (Call.Does t) w events a w') : w' = { w with locks := w'.locks } := by
  induction h with
  | done a s => rfl
  | @call c next s r u events a v head _ ih =>
    have hu : u = { s with locks := u.locks } := by
      by_cases hread : c.readOnly = true
      · rw [head.readOnly hread]
      · cases c with
        | net c => exact absurd rfl hread
        | cache c => cases hp.1
        | fs c =>
          cases c with
          | lock name =>
            cases r with
            | error e => rw [head.error (by simp)]
            | ok out => obtain ⟨-,rfl⟩ := head.lock; rfl
          | unlock name => rcases head.unlock with rfl | ⟨-,rfl⟩ <;> rfl
          | _ => exact absurd hp.1 hread
    have hv := ih (hp.2 _)
    rw [hu] at hv
    exact hv

theorem Filed.readable (h : Filed H key entry content w) : w.Readable key := by
  simp only [World.Readable,World.look,h.sidecar]
  rw [← h.hex]
  exact H.shape content

/-- What is served is served offline. -/
theorem Served.get_total (h : Served H artifact w) (hoff : ds.offline = true)
    (hfree : w.locks (Layout.keyLockName H artifact.key) = none) :
    (ds.get H U artifact).run.Total (Call.Works t) (fun out w' => (∃ path, out = .ok path) ∧ w' = w) w := by
  obtain ⟨entry,content,hfiled,hbytes,hwants⟩ := h
  refine (get_offline hfiled.readable (entryAt_eq.mpr hfiled.sidecar) hoff hfree).mono ?_
  rintro out u ⟨rfl,hout⟩
  exact ⟨hout.mpr ⟨⟨content,hfiled.blob,hfiled.hex,hbytes⟩,content,hfiled.blob,hwants⟩,rfl⟩

theorem localFailures_total {artifacts : List Artifact} (h : ∀ artifact ∈ artifacts, Served H artifact w)
    (hoff : ds.offline = true) (hfree : ∀ name, w.locks name = none) :
    (localFailures H U ds artifacts).Total (Call.Works t) (fun failed w' => failed = [] ∧ w' = w) w := by
  induction artifacts with
  | nil => exact ⟨rfl,rfl⟩
  | cons artifact rest ih =>
    refine Program.Total.bind (((h artifact (by simp)).get_total hoff (hfree _)).mono ?_)
    rintro out u ⟨⟨path,rfl⟩,rfl⟩
    exact ih fun a ha => h a (by simp [ha])

/-- The artifacts that did not fail were served. -/
theorem localFailures_served (hoff : ds.offline = true) (artifacts : List Artifact) :
    ∀ {w events failed}, (localFailures H U ds artifacts).Runs (Alone H t) w events failed w' →
      failed.Sublist artifacts ∧ ∀ artifact ∈ artifacts, artifact ∉ failed → Served H artifact w := by
  induction artifacts with
  | nil =>
    intro w events failed hr
    cases hr
    exact ⟨.slnil,fun _ h => (by cases h)⟩
  | cons artifact rest ih =>
    intro w events failed hr
    obtain ⟨before,r,u,after,rfl,hget,hrest⟩ := Program.Runs.bind_cases hr
    obtain ⟨hb,hi⟩ := still_of_runs (get_still hoff) (hget.mono fun _ _ _ _ h => h.1)
    have back : ∀ {a}, Served H a u → Served H a w := fun {a} hs =>
      (Served.lasting (U := U) (t := t) rfl).still hs hb.symm hi.symm
    cases r with
    | ok path =>
      obtain ⟨hsub,hserved⟩ := ih hrest
      refine ⟨hsub.cons _,fun a ha hn => ?_⟩
      rcases List.mem_cons.mp ha with rfl | ha
      · exact back (served_of_get hget)
      · exact back (hserved a ha hn)
    | error e =>
      obtain ⟨middle,failed',v,last,rfl,hlooked,hdone⟩ := Program.Runs.bind_cases hrest
      cases hdone
      obtain ⟨hsub,hserved⟩ := ih hlooked
      refine ⟨hsub.cons_cons _,fun a ha hn => ?_⟩
      simp only [List.mem_cons,not_or] at hn
      exact back (hserved a ((List.mem_cons.mp ha).resolve_left hn.1) hn.2)

theorem fetchAll_served {artifacts : List Artifact} (hkeys : (artifacts.map Artifact.key).Nodup) :
    ∀ {w events}, (fetchAll H U ds artifacts).run.Runs (Alone H t) w events (.ok ()) w' →
      ∀ artifact ∈ artifacts, Served H artifact w' := by
  induction artifacts with
  | nil => exact fun _ _ h => (by cases h)
  | cons artifact rest ih =>
    intro w events hr a ha
    rw [List.map_cons,List.nodup_cons] at hkeys
    obtain ⟨e,he,-⟩ | ⟨before,path,u,after,rfl,hget,hrest⟩ := Program.Runs.bind_run_cases hr
    · cases he
    rcases List.mem_cons.mp ha with rfl | ha
    · refine (Served.lasting rfl).fetchAll (fun b hb he => ?_) hrest (served_of_get hget)
      exact hkeys.1 (he ▸ List.mem_map_of_mem hb)
    · exact ih hkeys.2 hrest a ha


variable {store : Datastore} {second : Except DatastoreError Datastore} {manifest : Manifest}
  {failed : List Artifact} {u : World} {out : Except DatastoreError Unit}

theorem Filed.mono {v : World} (h : Filed H key entry content w) (hb : v.blobs = w.blobs)
    (hi : v.index = w.index) : Filed H key entry content v := ⟨hi ▸ h.sidecar,hb ▸ h.blob,h.hex⟩

/-- After a repair that succeeded everything is served. -/
theorem repairEnds_served (hkeys : (failed.map Artifact.key).Nodup)
    (hends : RepairEnds H U (Alone H t) ds second manifest failed u events (.ok ()) w') :
    ∀ artifact ∈ failed, Served H artifact w' := by
  cases hends with
  | passed hempty =>
    subst hempty
    exact fun _ h => (by cases h)
  | mended run inside mends =>
    obtain ⟨e,he,-⟩ | ⟨removing,_,x,rest,rfl,-,hrest⟩ := Program.Runs.bind_run_cases mends
    · cases he
    cases second with
    | error e => cases hrest
    | ok store => exact fetchAll_served hkeys hrest

/-- The keys of a manifest that was read are distinct (`fromTomlStr_writable`). After a
repair that succeeds the next verification succeeds and changes nothing. However
a repair ends, the artifacts that its first pass found in order keep their sidecar and their
blob; and if it finds a corrupt key that the manifest does not have, it refuses, and nothing
but locks has changed. -/
theorem verifyLocal_mended (hkeys : (manifest.artifacts.map Artifact.key).Nodup)
    (hfree : ∀ name, w.locks name = none)
    (hr : (verifyLocal H U (.ok store) second manifest true).run.Runs (Alone H t) w events out w') :
    (out = .ok () → ∀ s again, (verifyLocal H U (.ok store) again manifest false).run.Total (Call.Works s)
      (fun out' v => out' = .ok () ∧ v = w'.release t) (w'.release t)) ∧
    ∃ looking failed u, looking <+: events ∧
      (localFailures H U { store with offline := true } manifest.artifacts).Runs (Alone H t) w looking failed u ∧
      (∀ artifact ∈ manifest.artifacts, artifact ∉ failed → ∃ entry content,
        w.index.lookup (indexPath artifact.key) = some (.parsed entry) ∧
        w.blobs.lookup entry.digest = some content ∧
        w'.index.lookup (indexPath artifact.key) = some (.parsed entry) ∧
        w'.blobs.lookup entry.digest = some content) ∧
      (failed ≠ [] → ∀ seeing found v, looking++seeing <+: events →
        (Datastore.verify H { store with offline := true }).run.Runs (Alone H t) u seeing (.ok found) v →
        (∃ failure ∈ found, (manifest.get failure.key).isNone) →
        (∃ outside, out = .error (outsideManifest outside)) ∧ w' = { w with locks := w'.locks }) := by
  obtain ⟨looking,failed,u,rest,rfl,hlooked,hends⟩ := verifyLocal_cases hr
  have hoff : ({ store with offline := true } : Datastore).offline = true := rfl
  obtain ⟨hsub,hserved⟩ := localFailures_served hoff _ hlooked
  have hlooked' := hlooked.mono fun _ _ _ _ h => h.1
  obtain ⟨hb,hi⟩ := still_of_runs (localFailures_still hoff _) hlooked'
  have hapart : ∀ artifact ∈ manifest.artifacts, artifact ∉ failed → ∀ a ∈ failed, artifact.key ≠ a.key := by
    intro artifact hmem hn a ha he
    have := List.inj_on_of_nodup_map hkeys hmem (hsub.subset ha) he
    exact hn (this ▸ ha)
  constructor
  · rintro rfl s again
    have hafter : ∀ artifact ∈ manifest.artifacts, Served H artifact (w'.release t) := by
      intro artifact hmem
      have hlast : Lasting H U t (Alone H t) artifact.key (Served H artifact) := Served.lasting rfl
      refine hlast.still (w := w') ?_ rfl rfl
      by_cases hn : artifact ∈ failed
      · exact repairEnds_served (hkeys.sublist (hsub.map _)) hends artifact hn
      · exact hlast.repairEnds (hapart artifact hmem hn) hends (hlast.still (hserved artifact hmem hn) hb hi)
    have howned : Owned t w' := owned_of_runs (hr.mono fun _ _ _ _ h => h.1) fun name => .inl (hfree name)
    refine Program.Total.bind_run (Program.Total.bind_run (Program.Total.lift ?_))
    refine (localFailures_total hafter hoff howned.release).mono ?_
    rintro failed v ⟨rfl,rfl⟩
    exact ⟨rfl,rfl⟩
  · refine ⟨looking,failed,u,List.prefix_append _ _,hlooked,fun artifact hmem hn => ?_,?_⟩
    · obtain ⟨entry,content,hfiled,-,-⟩ := hserved artifact hmem hn
      have hlast : Lasting H U t (Alone H t) artifact.key (Filed H artifact.key entry content) :=
        Filed.lasting _ _ _
      have hfiled' := hlast.repairEnds (hapart artifact hmem hn) hends (hfiled.mono hb hi)
      exact ⟨entry,content,hfiled.sidecar,hfiled.blob,hfiled'.sidecar,hfiled'.blob⟩
    · intro hne seeing found v hprefix hverify ⟨failure,hmem,hnone⟩
      have hprefix := (List.prefix_append_right_inj _).mp hprefix
      cases hends with
      | passed hempty => exact absurd hempty hne
      | unread run =>
        obtain ⟨-,he⟩ := run.finishes.unique hverify.finishes (List.prefix_refl _) hprefix
        cases he
      | refused run outside =>
        refine ⟨⟨_,rfl⟩,?_⟩
        have hu := unmoved_of_runs (localFailures_still hoff _) hlooked'
        have hv := unmoved_of_runs verify_still (run.mono fun _ _ _ _ h => h.1)
        rw [hu] at hv
        exact hv
      | mended run inside mends =>
        obtain ⟨-,he⟩ := run.finishes.unique hverify.finishes (List.prefix_append _ _) hprefix
        cases he
        have := inside failure hmem
        rw [Option.isNone_iff_eq_none.mp hnone] at this
        cases this

end keeping

/-- Another key for the same content. -/
def Artifact.alias : Artifact := { Artifact.offered with key := ⟨"abd",by decide⟩ }

/-- Two keys share a damaged blob: both are removed, the content is fetched again for either, and the
verification after it succeeds. -/
theorem verifyLocal_mended_damaged : let ds : Datastore := ⟨⟨"/cache"⟩,none,⟨none⟩,true,false,none⟩
    ∃ events w', (verifyLocal .sample (twoHosts "a.com" "b.org") (.ok .alone) (.ok ds)
        ⟨[.offered,.alias]⟩ true).run.Runs (Alone .sample 0) .damaged events (.ok ()) w' ∧
      World.damaged.blobs.lookup (Sha256.sample.hex [0x61,0x62,0x63]) = some [] ∧
      w'.blobs.lookup (Sha256.sample.hex [0x61,0x62,0x63]) = some [0x61,0x62,0x63] ∧
      (verifyLocal .sample (twoHosts "a.com" "b.org") (.ok .alone) (.ok ds) ⟨[.offered,.alias]⟩ false).run.Total
        (Call.Works 1) (fun out v => out = .ok () ∧ v = w'.release 0) (w'.release 0) := by
  intro ds
  have hinj : Set.InjOn Sha256.sample.hex {body : Bytes | body ∈ [[],[0x61,0x62,0x63]]} := by
    have hall : ∀ a ∈ ([[],[0x61,0x62,0x63]] : List Bytes), ∀ b ∈ ([[],[0x61,0x62,0x63]] : List Bytes),
        Sha256.sample.hex a = Sha256.sample.hex b → a = b := by decide
    exact fun a ha b hb => hall a ha b hb
  have hreplays : (verifyLocal .sample (twoHosts "a.com" "b.org") (.ok .alone) (.ok ds)
      ⟨[.offered,.alias]⟩ true).run.replays (World.serveAmong [[],[0x61,0x62,0x63]] [0x61,0x62,0x63]) 300 .damaged
      (fun out w' => out.isOk &&
        w'.blobs.lookup (Sha256.sample.hex [0x61,0x62,0x63]) = some [0x61,0x62,0x63]) = true := by decide +kernel
  obtain ⟨events,out,w',hr,hcheck⟩ := Program.runs_of_replays (serveAmong_alone hinj _) hreplays
  simp only [Bool.and_eq_true,decide_eq_true_eq] at hcheck
  obtain ⟨hok,hblob⟩ := hcheck
  cases out with
  | error e => cases hok
  | ok _ =>
    have hkeys : (([.offered,.alias] : List Artifact).map Artifact.key).Nodup := by decide
    exact ⟨events,w',hr,rfl,hblob,(verifyLocal_mended hkeys (fun _ => rfl) hr).1 rfl 1 (.ok ds)⟩

end StarfieldDatastore
