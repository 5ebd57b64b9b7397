import StarfieldDatastore.Resolve
import StarfieldDatastore.Deliver

/-! One call of `get` with nobody else around, from any state of the disk: whatever path
it returns leads to content that is everything the artifact asks for. -/
namespace StarfieldDatastore
open Interleaving

/-- The steps of a thread that runs alone; calls may fail, and SHA-256 tells apart what is
on disk. -/
def Alone (H : Sha256) (t : ThreadId) (c : Call) (w : World) (r : c.Ret) (w' : World) : Prop :=
  c.Does t w r w' ∧ NoCollision H w'

/-- One step of thread 0 among the choices of a host that serves `body`, if it leaves these contents only. -/
def World.serveAmong (bodies : List Bytes) (body : Bytes) (c : Call) (w : World) : Option (c.Ret × World) :=
  (w.serve body c).filter fun e => e.2.holdsOnly bodies

theorem serveAmong_alone {H : Sha256} {bodies : List Bytes} (hinj : Set.InjOn H.hex {body | body ∈ bodies})
    (body : Bytes) (c : Call) (w : World) (r : c.Ret) (w' : World)
    (h : w.serveAmong bodies body c = some (r,w')) : Alone H 0 c w r w' := by
  obtain ⟨hserve,hholds⟩ := Option.filter_eq_some_iff.mp h
  exact ⟨.inl (serve_works body c w r w' hserve),hinj.mono (contents_of_holdsOnly hholds)⟩

section alone
variable {H : Sha256} {U : UrlCrate} {ds : Datastore} {t : ThreadId} {artifact : Artifact}
  {w w' : World} {events : List (Program.Event Call Call.Ret)} {path : List String}

theorem guarded_alone : Guarded H False t (.alone (Alone H t)) where
  does h := h.1
  rely h := by
    subst h
    exact .refl t _
  guar _ := trivial
  drops h := h.elim
  store h hs := by
    subst h
    exact ⟨hs,rfl,rfl⟩
  locking _ := trivial
  unlocking _ := trivial
  publishing _ _ _ := trivial
  indexing _ _ _ _ := trivial
  unindexing _ := trivial
  unlinking _ _ := trivial

/-- What a path that is served leads to. -/
structure Good (H : Sha256) (artifact : Artifact) (path : List String) (bytes : ℕ) (w : World)
    (content : Bytes) : Prop where
  file : w.fileAt path = some content
  name : path.getLast? = some (H.hex content)
  wants : artifact.Wants H content
  bytes : bytes = content.length

theorem Serves.good {bytes : ℕ} (h : Serves H (.alone (Alone H t)) artifact path bytes w) :
    ∃ content, Good H artifact path bytes w content := by
  obtain ⟨content,rfl,hblob,hvalid,hbytes⟩ := h ⟨fun h => h.2,fun _ _ h => h.symm⟩
  exact ⟨content,by simpa [World.fileAt,blobPath] using hblob,rfl,
    wants_iff.mpr ⟨hvalid.pins,hvalid.rest⟩,hbytes⟩

/-- Content served by `get` hashes to its name, has the size and all the pins of the
artifact, and passes its whole check. -/
theorem get_serves (h : (ds.get H U artifact).run.Runs (Alone H t) w events (.ok path) w') :
    ∃ content, w'.fileAt path = some content ∧ path.getLast? = some (H.hex content) ∧
      (∀ pin ∈ artifact.check.pinnedSha256s, pin = H.hex content) ∧
      (∀ n, artifact.expectedBytes = some n → n = content.length) ∧
      artifact.check.checkFile H content = .ok () := by
  have hw : Empty False t w := fun h => h.elim
  obtain ⟨-,hserved⟩ := Program.Holds.of_runs (get_holds guarded_alone hw) h
  obtain ⟨bytes,hserves⟩ := hserved path rfl
  obtain ⟨content,hgood⟩ := hserves.good
  exact ⟨content,hgood.file,hgood.name,(ContentCheck.accepts_iff_pins _).mp hgood.wants.2 |>.1,
    hgood.wants.1,ContentCheck.checkFile_iff.mpr hgood.wants.2⟩

/-- A local hit. -/
theorem get_serves_cached :
    let ds : Datastore := ⟨⟨"/cache"⟩,none,⟨none⟩,true,false,none⟩
    ∃ events path w' content, (ds.get .sample (twoHosts "a.com" "b.org") .sample).run.Runs
        (Alone .sample 0) .cached events (.ok path) w' ∧
      w'.fileAt path = some content ∧ path.getLast? = some (Sha256.sample.hex content) := by
  intro ds
  have hc := noCollision_cached
  have hr : ∃ events path w', (ds.get .sample (twoHosts "a.com" "b.org") .sample).run.Runs
      (Alone .sample 0) .cached events (.ok path) w' :=
    ⟨_,_,_,.call ⟨.inl ⟨(),rfl⟩,hc _⟩ (.call ⟨.inl ⟨(),rfl⟩,hc _⟩ (.call ⟨.inl ⟨(),rfl⟩,hc _⟩
      (.call ⟨.inl ⟨(),rfl⟩,hc _⟩ (.call ⟨.inl ⟨(),rfl⟩,hc _⟩ (.call ⟨.inl ⟨(),rfl⟩,hc _⟩
        (.call ⟨.inl ⟨(),rfl⟩,hc _⟩ (.done _ _)))))))⟩
  obtain ⟨events,path,w',hr⟩ := hr
  obtain ⟨content,hfile,hname,-⟩ := get_serves hr
  exact ⟨events,path,w',content,hr,hfile,hname⟩

/-- What `getLimited` serves is no longer than its limit. -/
theorem getLimited_serves {limit : ℕ}
    (h : (ds.getLimited H U artifact limit).run.Runs (Alone H t) w events (.ok path) w') :
    ∃ content, w'.fileAt path = some content ∧ content.length ≤ limit := by
  have hw : Empty False t w := fun h => h.elim
  obtain ⟨-,hserved⟩ := Program.Holds.of_runs (getLimited_holds guarded_alone limit hw) h
  obtain ⟨bytes,hserves,hle⟩ := hserved path rfl
  obtain ⟨content,hgood⟩ := hserves.good
  exact ⟨content,hgood.file,hgood.bytes ▸ hle⟩

end alone
end StarfieldDatastore
