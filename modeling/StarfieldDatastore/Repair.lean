import StarfieldDatastore.Scope
import StarfieldDatastore.Manifest

/-! The command `verify --repair` on the local cache: what an error leaves of the blobs
that were intact. -/
namespace StarfieldDatastore
open Interleaving

section command
variable (H : Sha256) (U : UrlCrate)

/-- The artifacts that the store cannot serve. -/
def localFailures (store : Datastore) : List Artifact → Prog (List Artifact)
  | [] => return []
  | artifact :: rest => do
    match ← (store.get H U artifact).run with
    | .ok _ => localFailures store rest
    | .error _ => return artifact :: (← localFailures store rest)

def removeAll (store : Datastore) : List Artifact → Op Unit
  | [] => return ()
  | artifact :: rest => do
    store.remove H artifact.key
    removeAll store rest

def fetchAll (store : Datastore) : List Artifact → Op Unit
  | [] => return ()
  | artifact :: rest => do
    let _ ← store.get H U artifact
    fetchAll store rest

def outsideManifest (outside : List VerifyFailure) : DatastoreError :=
  .config ("corrupt entries outside the manifest need explicit remove --key before repair: " ++
    ", ".intercalate (outside.map fun f => f.key.text))

/-- `first` and `second` are the stores as the settings build them at the two times that
they are built. All failed aliases are removed before anything is fetched. -/
def verifyLocal (first second : Except DatastoreError Datastore) (manifest : Manifest)
    (repair : Bool) : Op Unit := do
  let store ← first
  let store := { store with offline := true }
  let failed ← localFailures H U store manifest.artifacts
  if failed.isEmpty then return ()
  else
    let outside := (← store.verify H).filter fun f => (manifest.get f.key).isNone
    if repair && !outside.isEmpty then throw (outsideManifest outside)
    else if !repair then
      throw (.config (s!"verification failed for {failed.length} artifacts; " ++
        "use --repair to refetch explicitly"))
    else
      removeAll H store failed
      let store ← second
      fetchAll H U store failed

end command

/-- The sidecar of `key` is `entry`, and the blob that it names hashes to its name. -/
structure Named (H : Sha256) (key : ArtifactKey) (entry : IndexEntry) (w : World) : Prop where
  sidecar : w.index.lookup (indexPath key) = some (.parsed entry)
  blob : ∃ blob, w.blobs.lookup entry.digest = some blob ∧ H.hex blob = entry.digest

/-- A sidecar that stays keeps its blob. -/
def Retains (H : Sha256) (w w' : World) : Prop :=
  ∀ key entry, Named H key entry w → w'.index.lookup (indexPath key) = some (.parsed entry) →
    Named H key entry w'

/-- A thread that runs alone. -/
def retaining (H : Sha256) (t : ThreadId) : Setting Call Call.Ret World where
  step := Call.Does t
  rely := Eq
  guar := Retains H
  rely_refl _ := rfl
  rely_trans := Eq.trans

section retaining
variable {H : Sha256} {U : UrlCrate} {ds : Datastore} {artifact : Artifact} {t : ThreadId}
  {w w' : World} {key : ArtifactKey} {entry : IndexEntry} {α : Type} {events : List Event}

theorem Retains.of_blobs (hb : w'.blobs = w.blobs) : Retains H w w' :=
  fun _ _ h hs => ⟨hs,hb ▸ h.blob⟩

theorem guarded_retaining : Guarded H False t (retaining H t) where
  does h := h
  rely h := by
    subst h
    exact .refl t _
  guar h := .of_blobs (by rw [h.rest])
  drops h := h.elim
  store h hs := by
    subst h
    exact ⟨hs,rfl,rfl⟩
  locking _ := .of_blobs rfl
  unlocking _ := .of_blobs rfl
  publishing {w tmp body} _ _ _ := by
    intro key entry h hs
    refine ⟨hs,?_⟩
    by_cases he : entry.digest = H.hex body
    · exact ⟨body,by rw [he,AList.lookup_insert],he.symm⟩
    · simpa only [AList.lookup_insert_ne he] using h.blob
  indexing _ _ _ _ := .of_blobs rfl
  unindexing _ := .of_blobs rfl
  unlinking {w digest} _ hd := by
    intro key entry h hs
    refine ⟨hs,?_⟩
    simpa only [AList.lookup_erase_ne (hd key entry h.sidecar)] using h.blob

/-- An operation that spares the sidecar of a key keeps its blob as well. -/
theorem Named.of_runs {p : Prog α} {Q : α → World → Prop} {a : α} (h : Named H key entry w)
    (hp : p.Holds (retaining H t) Q w) (hspares : p.Only (Call.spares (indexPath key)))
    (hr : p.Runs (Call.Does t) w events a w') : Named H key entry w' := by
  refine (hp.caused hspares).kept_of_runs (fun s s' hg hs => ?_) hr h
  obtain ⟨hretains,c,r,hc,hstep⟩ := hg
  refine hretains key entry hs ?_
  exact ((congrFun (Call.Does.index hstep) _).trans (hc _ _)).trans hs.sidecar

theorem get_spares (hp : key ≠ artifact.key) :
    (ds.get H U artifact).run.Only (Call.spares (indexPath key)) :=
  .bind_run (getWithBudget_spares none fun he => hp (indexPath_injective he)) fun _ => trivial

variable {step : (c : Call) → World → c.Ret → World → Prop} {K : World → Prop}

/-- What operations on other keys leave alone. -/
structure Lasting (H : Sha256) (U : UrlCrate) (t : ThreadId) (step : (c : Call) → World → c.Ret → World → Prop)
    (key : ArtifactKey) (K : World → Prop) : Prop where
  does : ∀ c w r w', step c w r w' → c.Does t w r w'
  still : ∀ {w w'}, K w → w'.blobs = w.blobs → w'.index = w.index → K w'
  get : ∀ {ds artifact w events out w'}, key ≠ artifact.key →
    (Datastore.get H U ds artifact).run.Runs step w events out w' → K w → K w'
  remove : ∀ {ds key' w events out w'}, key ≠ key' →
    (Datastore.remove H ds key').run.Runs step w events out w' → K w → K w'

/-- A sidecar with an intact blob is left alone. -/
theorem Named.lasting (key : ArtifactKey) (entry : IndexEntry) :
    Lasting H U t (Call.Does t) key (Named H key entry) where
  does _ _ _ _ h := h
  still h hb hi := ⟨hi ▸ h.sidecar,hb ▸ h.blob⟩
  get hp hr h := h.of_runs (get_holds guarded_retaining empty_false) (get_spares hp) hr
  remove hp hr h := h.of_runs (remove_holds guarded_retaining _ empty_false)
    (remove_spares fun he => hp (indexPath_injective he)) hr

theorem localFailures_still (hds : ds.offline = true) (artifacts : List Artifact) :
    (localFailures H U ds artifacts).Only fun c => c.still = true := by
  induction artifacts with
  | nil => trivial
  | cons artifact rest ih =>
    refine .bind (get_still hds) fun r => ?_
    cases r with
    | ok path => exact ih
    | error e => exact .bind ih fun _ => trivial

theorem Lasting.removeAll (hK : Lasting H U t step key K) {failed : List Artifact}
    (hkey : ∀ artifact ∈ failed, key ≠ artifact.key) : ∀ {w events out},
      (removeAll H ds failed).run.Runs step w events out w' → K w → K w' := by
  induction failed with
  | nil =>
    intro w events out hr h
    cases hr
    exact h
  | cons artifact rest ih =>
    intro w events out hr h
    obtain ⟨before,r,u,after,rfl,hremove,hrest⟩ := Program.Runs.bind_cases hr
    have hu := hK.remove (hkey artifact (by simp)) hremove h
    cases r with
    | error e =>
      cases hrest
      exact hu
    | ok done => exact ih (fun a ha => hkey a (by simp [ha])) hrest hu

theorem Lasting.fetchAll (hK : Lasting H U t step key K) {failed : List Artifact}
    (hkey : ∀ artifact ∈ failed, key ≠ artifact.key) : ∀ {w events out},
      (fetchAll H U ds failed).run.Runs step w events out w' → K w → K w' := by
  induction failed with
  | nil =>
    intro w events out hr h
    cases hr
    exact h
  | cons artifact rest ih =>
    intro w events out hr h
    obtain ⟨before,r,u,after,rfl,hget,hrest⟩ := Program.Runs.bind_cases hr
    have hu := hK.get (hkey artifact (by simp)) hget h
    cases r with
    | error e =>
      cases hrest
      exact hu
    | ok path => exact ih (fun a ha => hkey a (by simp [ha])) hrest hu

/-- The second half of a repair. -/
def mend (H : Sha256) (U : UrlCrate) (store : Datastore) (second : Except DatastoreError Datastore)
    (failed : List Artifact) : Op Unit := do
  removeAll H store failed
  let store ← second
  fetchAll H U store failed

theorem Lasting.mend (hK : Lasting H U t step key K) {failed : List Artifact}
    {second : Except DatastoreError Datastore} (hkey : ∀ artifact ∈ failed, key ≠ artifact.key)
    {out : Except DatastoreError Unit} (hr : (mend H U ds second failed).run.Runs step w events out w')
    (h : K w) : K w' := by
  obtain ⟨e,rfl,hx⟩ | ⟨removing,_,u,rest,rfl,hremove,hrest⟩ := Program.Runs.bind_run_cases hr
  · exact hK.removeAll hkey hx h
  have hu := hK.removeAll hkey hremove h
  cases second with
  | error e =>
    cases hrest
    exact hu
  | ok store => exact hK.fetchAll hkey hrest hu

variable {first second : Except DatastoreError Datastore} {manifest : Manifest}

/-- A repair that found these artifacts failed, and no other key corrupt than those of the
manifest, so that it came to remove them. -/
structure RemovesFailed (H : Sha256) (U : UrlCrate) (t : ThreadId) (first : Except DatastoreError Datastore)
    (manifest : Manifest) (failed : List Artifact) (w : World) (events : List Event) : Prop where
  looked : ∃ store before w₁ found after w₂ rest, first = .ok store ∧ events = before++(after++rest) ∧
    (localFailures H U { store with offline := true } manifest.artifacts).Runs (Call.Does t) w before
      failed w₁ ∧
    (Datastore.verify H { store with offline := true }).run.Runs (Call.Does t) w₁ after (.ok found) w₂ ∧
    ∀ failure ∈ found, (manifest.get failure.key).isSome

/-- The ways on from the first pass of a repair, in which `failed` failed. -/
inductive RepairEnds (H : Sha256) (U : UrlCrate) (step : (c : Call) → World → c.Ret → World → Prop)
    (store : Datastore) (second : Except DatastoreError Datastore) (manifest : Manifest) (failed : List Artifact)
    (w : World) : List Event → Except DatastoreError Unit → World → Prop
  | passed (h : failed = []) : RepairEnds H U step store second manifest failed w [] (.ok ()) w
  | unread {events e w'} (run : (store.verify H).run.Runs step w events (.error e) w') :
      RepairEnds H U step store second manifest failed w events (.error e) w'
  | refused {events found w'} (run : (store.verify H).run.Runs step w events (.ok found) w')
      (outside : ∃ failure ∈ found, (manifest.get failure.key).isNone) :
      RepairEnds H U step store second manifest failed w events
        (.error (outsideManifest (found.filter fun f => (manifest.get f.key).isNone))) w'
  | mended {seeing found u mending out w'} (run : (store.verify H).run.Runs step w seeing (.ok found) u)
      (inside : ∀ failure ∈ found, (manifest.get failure.key).isSome)
      (mends : (mend H U store second failed).run.Runs step u mending out w') :
      RepairEnds H U step store second manifest failed w (seeing++mending) out w'

theorem verifyLocal_cases {store : Datastore} {out : Except DatastoreError Unit}
    (hr : (verifyLocal H U (.ok store) second manifest true).run.Runs step w events out w') :
    ∃ looking failed u rest, events = looking++rest ∧
      (localFailures H U { store with offline := true } manifest.artifacts).Runs step w looking failed u ∧
      RepairEnds H U step { store with offline := true } second manifest failed u rest out w' := by
  obtain ⟨e,rfl,hx⟩ | ⟨start,_,u,all,rfl,hbuilt,hr⟩ := Program.Runs.bind_run_cases hr
  · cases hx
  cases hbuilt
  obtain ⟨e,rfl,hx⟩ | ⟨looking,failed,u,rest,rfl,hlooked,hrest⟩ := Program.Runs.bind_run_cases hr
  · obtain ⟨_,he,-⟩ := Program.Runs.of_lift hx
    cases he
  obtain ⟨failed',he,hlooked⟩ := Program.Runs.of_lift hlooked
  cases he
  refine ⟨looking,failed,u,rest,rfl,hlooked,?_⟩
  split at hrest
  · rename_i hempty
    cases hrest
    exact .passed (List.isEmpty_iff.mp hempty)
  obtain ⟨e,rfl,hx⟩ | ⟨seeing,found,v,mending,rfl,hverify,hrest⟩ := Program.Runs.bind_run_cases hrest
  · exact .unread hx
  simp only [Bool.true_and,Bool.not_true,Bool.false_eq_true,if_false] at hrest
  split at hrest
  · rename_i houtside
    cases hrest
    rw [List.append_nil]
    refine .refused hverify ?_
    simpa [List.isEmpty_iff] using houtside
  · rename_i hinside
    refine .mended hverify (fun failure hmem => ?_) hrest
    simp only [Bool.not_eq_true',Bool.not_eq_false,List.isEmpty_iff,List.filter_eq_nil_iff] at hinside
    simpa [Option.isSome_iff_ne_none] using hinside failure hmem

/-- A repair changes nothing, or it has found no corrupt key outside the manifest and mends. -/
theorem RepairEnds.still_or_mended {failed : List Artifact} {out : Except DatastoreError Unit}
    {second : Except DatastoreError Datastore} (hdoes : ∀ c w r w', step c w r w' → c.Does t w r w')
    (hends : RepairEnds H U step ds second manifest failed w events out w') :
    (w'.blobs = w.blobs ∧ w'.index = w.index) ∨ ∃ seeing found u mending, events = seeing++mending ∧
      (ds.verify H).run.Runs step w seeing (.ok found) u ∧
      (∀ failure ∈ found, (manifest.get failure.key).isSome) ∧
      (mend H U ds second failed).run.Runs step u mending out w' := by
  cases hends with
  | passed hempty => exact .inl ⟨rfl,rfl⟩
  | unread run => exact .inl (still_of_runs verify_still (run.mono hdoes))
  | refused run outside => exact .inl (still_of_runs verify_still (run.mono hdoes))
  | mended run inside mends => exact .inr ⟨_,_,_,_,rfl,run,inside,mends⟩

/-- What lasts is still there after a repair in which its key did not fail. -/
theorem Lasting.repairEnds (hK : Lasting H U t step key K) {failed : List Artifact}
    {out : Except DatastoreError Unit} {second : Except DatastoreError Datastore}
    (hkey : ∀ artifact ∈ failed, key ≠ artifact.key)
    (hends : RepairEnds H U step ds second manifest failed w events out w') (h : K w) : K w' := by
  rcases hends.still_or_mended hK.does with ⟨hb,hi⟩ | ⟨seeing,found,u,mending,rfl,run,-,mends⟩
  · exact hK.still h hb hi
  · obtain ⟨hb,hi⟩ := still_of_runs verify_still (run.mono hK.does)
    exact hK.mend hkey mends (hK.still h hb hi)

/-- However a repair ends, what lasts is still there, unless the artifact of that key has
failed and the failed keys have come to be removed. -/
theorem Lasting.verifyLocal (hK : Lasting H U t step key K) {out : Except DatastoreError Unit}
    (hr : (verifyLocal H U first second manifest true).run.Runs step w events out w') (h : K w) : K w' ∨
      ∃ failed, RemovesFailed H U t first manifest failed w events ∧ ∃ artifact ∈ failed, artifact.key = key := by
  cases first with
  | error e =>
    cases hr
    exact .inl h
  | ok store =>
    obtain ⟨looking,failed,u,rest,rfl,hlooked,hends⟩ := verifyLocal_cases hr
    have hlooked := hlooked.mono hK.does
    obtain ⟨hb,hi⟩ := still_of_runs (localFailures_still rfl _) hlooked
    have hu := hK.still h hb hi
    by_cases hkey : ∃ artifact ∈ failed, artifact.key = key
    · rcases hends.still_or_mended hK.does with ⟨hb,hi⟩ | ⟨seeing,found,v,mending,rfl,run,inside,-⟩
      · exact .inl (hK.still hu hb hi)
      · exact .inr ⟨failed,⟨store,looking,u,_,_,_,_,rfl,rfl,hlooked,run.mono hK.does,inside⟩,hkey⟩
    · exact .inl (hK.repairEnds (fun a ha he => hkey ⟨a,ha,he.symm⟩) hends hu)

/-- However a repair ends, every blob that was intact is still there under a sidecar that
named it, unless that sidecar is of a manifest artifact that failed locally, and the run
came to remove the failed keys. -/
theorem verifyLocal_retains {out : Except DatastoreError Unit} {body : Bytes}
    (hr : (verifyLocal H U first second manifest true).run.Runs (Call.Does t) w events out w')
    (hside : w.index.lookup (indexPath key) = some (.parsed entry))
    (hblob : w.blobs.lookup entry.digest = some body) (hhex : H.hex body = entry.digest) :
    (w'.index.lookup (indexPath key) = some (.parsed entry) ∧
      ∃ blob, w'.blobs.lookup entry.digest = some blob ∧ H.hex blob = entry.digest ∧
        (Set.InjOn H.hex {blob,body} → blob = body)) ∨
    ∃ failed, RemovesFailed H U t first manifest failed w events ∧ ∃ artifact ∈ failed, artifact.key = key := by
  rcases (Named.lasting key entry).verifyLocal hr ⟨hside,body,hblob,hhex⟩ with h | h
  · obtain ⟨blob,hblob',hhex'⟩ := h.blob
    exact .inl ⟨h.sidecar,blob,hblob',hhex',fun hinj =>
      hinj (by simp) (by simp) (hhex'.trans hhex.symm)⟩
  · exact .inr h

/-- A repair that has found failed artifacts and no corrupt key goes on to remove them. -/
theorem verifyLocal_repairs {store store' : Datastore} {failed : List Artifact} {w₁ w₂ : World}
    {looking seeing mending : List Event} {out : Except DatastoreError Unit}
    (hlook : (localFailures H U { store with offline := true } manifest.artifacts).Runs (Call.Does t) w
      looking failed w₁) (hfailed : failed ≠ [])
    (hsee : (Datastore.verify H { store with offline := true }).run.Runs (Call.Does t) w₁ seeing (.ok []) w₂)
    (hmend : (removeAll H { store with offline := true } failed >>= fun _ =>
      fetchAll H U store' failed).run.Runs (Call.Does t) w₂ mending out w') :
    (verifyLocal H U (.ok store) (.ok store') manifest true).run.Runs (Call.Does t) w
      (looking++(seeing++mending)) out w' := by
  have hbuilt : (liftM (Except.ok store : Except DatastoreError Datastore) : Op Datastore).run.Runs
      (Call.Does t) w [] (.ok store) w := .done _ _
  refine hbuilt.bind_run ((Program.Runs.lift hlook).bind_run ?_)
  rw [if_neg (by simpa using hfailed)]
  exact Program.Runs.bind_run hsee hmend

/-- A manifest artifact that is not in the cache and has no sources. -/
def Artifact.gone : Artifact := { Artifact.sample with key := ⟨"gone",by decide⟩ }

/-- The same content as in the cache, of another size as the manifest now has it. -/
def Artifact.resized : Artifact := { Artifact.sample with expectedBytes := some 4 }

theorem keys_runs (h : w.index.keys = [indexPath key]) :
    Layout.keys.run.Runs (Call.Does t) w [⟨.fs .listIndex,.ok [indexPath key]⟩] (.ok [key]) w := by
  have hkeys : ([indexPath key].filterMap keyOfPath).insertionSort (fun a b => a.text ≤ b.text) = [key] := by
    rw [List.filterMap_cons,keyOfPath_indexPath]
    rfl
  have hd : (Call.fs .listIndex).Does t w (.ok [indexPath key]) w := .inl ⟨(),by
    show some (Except.ok w.index.keys,w) = _
    rw [h]⟩
  have hr : Layout.keys.run.Runs (Call.Does t) w [⟨.fs .listIndex,.ok [indexPath key]⟩]
      (.ok (([indexPath key].filterMap keyOfPath).insertionSort fun a b => a.text ≤ b.text)) w :=
    .call hd (.done _ _)
  rwa [hkeys] at hr

end retaining

/-- The cache after an operation on the key of lock `name` that has changed nothing. -/
def World.cachedAfter (name : String) : World := (World.cached.setLock name (some 0)).setLock name none

theorem verify_runs_cached (name : String) : ∃ events,
    (Datastore.verify .sample .alone).run.Runs (Call.Does 0) (.cachedAfter name) events (.ok [])
      (.cachedAfter name) := by
  have hk : (World.cachedAfter name).index.keys = [indexPath Artifact.sample.key] := rfl
  have hentries : ∃ events, (Datastore.entries .alone).run.Runs (Call.Does 0) (.cachedAfter name) events
      (.ok [(Artifact.sample.key,⟨Sha256.sample.hex [0x61,0x62,0x63],3,0,none,none,none,.localDisk⟩)])
      (.cachedAfter name) := ⟨_,.bind_run (keys_runs hk) (.call (.inl ⟨(),rfl⟩) (.done _ _))⟩
  obtain ⟨_,hentries⟩ := hentries
  exact ⟨_,.bind_run hentries
    (.call (.inl ⟨(),rfl⟩) (.call (.inl ⟨(),rfl⟩) (.call (.inl ⟨(),rfl⟩) (.done _ _))))⟩

/-- A repair that cannot fetch the one failed artifact leaves the other key alone. -/
theorem verifyLocal_retains_gone : ∃ events e w',
    (verifyLocal .sample (twoHosts "a.com" "b.org") (.ok .alone) (.ok .alone) ⟨[.gone]⟩ true).run.Runs
      (Call.Does 0) .cached events (.error e) w' ∧
    ((∃ entry, w'.index.lookup "abc.json" = some (.parsed entry) ∧
      ∃ blob, w'.blobs.lookup entry.digest = some blob ∧ Sha256.sample.hex blob = entry.digest) ∨
    ∃ failed, RemovesFailed .sample (twoHosts "a.com" "b.org") 0 (.ok .alone) ⟨[.gone]⟩ failed .cached events ∧
      ∃ artifact ∈ failed, artifact.key = Artifact.sample.key) := by
  have hlook : ∃ events, (localFailures .sample (twoHosts "a.com" "b.org") .alone [.gone]).Runs
      (Call.Does 0) .cached events [.gone] (.cachedAfter (Layout.keyLockName .sample Artifact.gone.key)) :=
    ⟨_,.call (.inl ⟨(),rfl⟩) (.call (.inl ⟨(),rfl⟩) (.call (.inl ⟨(),rfl⟩) (.done _ _)))⟩
  have hr : ∃ events e w', (verifyLocal .sample (twoHosts "a.com" "b.org") (.ok .alone) (.ok .alone)
      ⟨[.gone]⟩ true).run.Runs (Call.Does 0) .cached events (.error e) w' := by
    obtain ⟨_,hlook⟩ := hlook
    obtain ⟨_,hsee⟩ := verify_runs_cached (Layout.keyLockName .sample Artifact.gone.key)
    exact ⟨_,_,_,verifyLocal_repairs hlook (by simp) hsee
      (.call (.inl ⟨(),rfl⟩) (.call (.inl ⟨(),rfl⟩) (.call (.inl ⟨(),rfl⟩) (.call (.inl ⟨(),rfl⟩)
      (.call (.inl ⟨(),rfl⟩) (.call (.inl ⟨(),rfl⟩) (.call (.inl ⟨(),rfl⟩) (.call (.inl ⟨(),rfl⟩)
      (.done _ _)))))))))⟩
  obtain ⟨events,e,w',hr⟩ := hr
  refine ⟨events,e,w',hr,?_⟩
  have hside : World.cached.index.lookup (indexPath Artifact.sample.key) = some (.parsed
      ⟨Sha256.sample.hex [0x61,0x62,0x63],3,0,none,none,none,.localDisk⟩) := rfl
  rcases verifyLocal_retains hr hside rfl rfl with ⟨hside',blob,hblob,hhex,-⟩ | h
  · exact .inl ⟨_,hside',blob,hblob,hhex⟩
  · exact .inr h

/-- A repair that cannot fetch the resized artifact ends in an error, and the intact blob of
its import is gone. -/
theorem verifyLocal_loses : Artifact.resized.sources = [] ∧
    (∃ entry, World.cached.index.lookup "abc.json" = some (.parsed entry) ∧
      ∃ body, World.cached.blobs.lookup entry.digest = some body ∧
        Sha256.sample.hex body = entry.digest ∧ body.length = entry.bytes) ∧
    ∃ events e w', (verifyLocal .sample (twoHosts "a.com" "b.org") (.ok .alone) (.ok .alone)
        ⟨[.resized]⟩ true).run.Runs (Call.Does 0) .cached events (.error e) w' ∧
      w'.blobs = ∅ ∧ w'.index = ∅ := by
  have hlook : ∃ events, (localFailures .sample (twoHosts "a.com" "b.org") .alone [.resized]).Runs
      (Call.Does 0) .cached events [.resized]
      (.cachedAfter (Layout.keyLockName .sample Artifact.resized.key)) :=
    ⟨_,.call (.inl ⟨(),rfl⟩) (.call (.inl ⟨(),rfl⟩) (.call (.inl ⟨(),rfl⟩) (.call (.inl ⟨(),rfl⟩)
      (.call (.inl ⟨(),rfl⟩) (.call (.inl ⟨(),rfl⟩) (.done _ _))))))⟩
  obtain ⟨_,hlook⟩ := hlook
  obtain ⟨_,hsee⟩ := verify_runs_cached (Layout.keyLockName .sample Artifact.resized.key)
  refine ⟨rfl,⟨_,rfl,_,rfl,rfl,rfl⟩,_,_,_,verifyLocal_repairs hlook (by simp) hsee
    (.call (.inl ⟨(),rfl⟩) (.call (.inl ⟨(),rfl⟩) (.call (.inl ⟨(),rfl⟩) (.call (.inl ⟨(),rfl⟩)
    (.call (.inl ⟨(),rfl⟩) (.call (.inl ⟨(),rfl⟩) (.call (.inl ⟨(),rfl⟩) (.call (.inl ⟨(),rfl⟩)
    (.call (.inl ⟨(),rfl⟩) (.call (.inl ⟨(),rfl⟩) (.call (.inl ⟨(),rfl⟩) (.done _ _)))))))))))),?_,?_⟩
  · rfl
  · rfl

end StarfieldDatastore
