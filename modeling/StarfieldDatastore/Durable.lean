import StarfieldDatastore.Consistency
import StarfieldDatastore.PowerLoss

/-! Loss of power at any step of any number of threads that share a cache root: what a
store that is opened again may find of blobs and sidecars. -/
namespace StarfieldDatastore
open Interleaving PowerLoss

/-- The directory that a path below `index/` lies in, up to its last separator. -/
def directoryOf (path : String) : List Char := (path.toList.reverse.dropWhile (· ≠ '/')).reverse

/-- The directory below `blobs/` for a digest. -/
def shardOf (digest : String) : String := String.ofList (digest.toList.take 2)

/-- A file with a name. What is left of one that was not synced is open. -/
structure StoredFile where
  content : Bytes
  synced : Bool

/-- The directory entries under a cache root whose four top directories are durable:
`shards` are the entries of `blobs/`, and `dirs` and `sidecars` those of `index/` and the
directories below it. `synced` tells which temporary files were synced since they were
written, and `placed` are the paths of the sidecars that were renamed into place so far. -/
structure Disk where
  shards : Entries String Bool
  blobs : Entries String (Option StoredFile)
  dirs : Entries String Bool
  sidecars : Entries String (Option Sidecar)
  synced : ℕ → Bool
  placed : List String

/-- An empty cache root. -/
def Disk.fresh : Disk where
  shards := .durable fun _ => false
  blobs := .durable fun _ => none
  dirs := .durable fun _ => false
  sidecars := .durable fun _ => none
  synced _ := false
  placed := []

/-- What a filesystem step that was answered by `r` does to the directory entries. -/
def Disk.follow (d : Disk) (w : World) : (c : FsCall) → Except IoError c.Out → Disk
  | .createIndexDirs path, .ok _ =>
    { d with dirs := d.dirs.change (fun dir => World.isAncestor dir path) true }
  | .persistSidecar path entry, .ok _ =>
    { d with
      sidecars := d.sidecars.change (· = path) (some (.parsed entry))
      placed := path :: d.placed }
  | .syncIndexDir path, .ok _ =>
    { d with
      dirs := d.dirs.sync fun dir => directoryOf dir = directoryOf path
      sidecars := d.sidecars.sync fun other => directoryOf other = directoryOf path }
  | .unlinkSidecar path, .ok _ => { d with sidecars := d.sidecars.change (· = path) none }
  | .createBlobDir digest, .ok _ => { d with shards := d.shards.change (· = shardOf digest) true }
  | .persistBlob tmp digest, .ok _ =>
    { d with blobs := d.blobs.change (· = digest) ((w.tmp.lookup tmp).map fun file => ⟨file.content,d.synced tmp⟩) }
  | .syncBlobDir digest, .ok _ =>
    { d with blobs := d.blobs.sync fun other => shardOf other = shardOf digest }
  | .unlinkBlob digest, .ok _ => { d with blobs := d.blobs.change (· = digest) none }
  | .createTmp, .ok tmp => { d with synced := Function.update d.synced tmp false }
  | .appendTmp tmp _, _ => { d with synced := Function.update d.synced tmp false }
  | .syncTmp tmp, .ok _ => { d with synced := Function.update d.synced tmp true }
  | _, _ => d

def Disk.after (d : Disk) (w : World) : (c : Call) → c.Ret → Disk
  | .fs c, r => d.follow w c r
  | _, _ => d

/-- Nothing can be renamed into a directory that is not there. -/
def Disk.Allows (d : Disk) : (c : Call) → c.Ret → Prop
  | .fs (.persistSidecar path _), .ok _ => ∀ dir, World.isAncestor dir path = true → d.dirs.now dir = true
  | .fs (.persistBlob _ digest), .ok _ => d.shards.now (shardOf digest) = true
  | _, _ => True

/-- What is under the cache root when the power is back. -/
structure Remains where
  shards : String → Bool
  blobs : String → Option Bytes
  dirs : String → Bool
  sidecars : String → Option Sidecar

/-- A loss of power may leave this. -/
structure Disk.Leaves (d : Disk) (m : Remains) : Prop where
  shards : d.shards.Leaves m.shards
  dirs : d.dirs.Leaves m.dirs
  sidecars : d.sidecars.Leaves m.sidecars
  blobs : ∃ files, d.blobs.Leaves files ∧ ∀ digest,
    Option.Rel (fun file body => file.synced = true → body = file.content) (files digest) (m.blobs digest)

/-- A blob is found if its shard is. -/
def Remains.blob (m : Remains) (digest : String) : Option Bytes :=
  if m.shards (shardOf digest) then m.blobs digest else none

/-- A sidecar is found if all directories on the way to it are. -/
def Remains.Sidecar (m : Remains) (path : String) (sidecar : StarfieldDatastore.Sidecar) : Prop :=
  (∀ dir, World.isAncestor dir path = true → m.dirs dir = true) ∧ m.sidecars path = some sidecar

/-- Every sidecar names a blob that is present, with the recorded digest and length. -/
def Remains.Sound (H : Sha256) (m : Remains) : Prop :=
  ∀ path sidecar, m.Sidecar path sidecar → ∃ entry body, sidecar = .parsed entry ∧
    m.blob entry.digest = some body ∧ H.hex body = entry.digest ∧ body.length = entry.bytes

/-- Whatever a loss of power leaves is sound. -/
def Disk.Survives (H : Sha256) (d : Disk) : Prop := ∀ m, d.Leaves m → m.Sound H

/-- Threads that share one cache root on a disk that can lose power. -/
def powered (H : Sha256) (U : UrlCrate) : System ThreadId Call Call.Ret (World × Disk) Unit where
  step t c s r s' := c.Does t s.1 r s'.1 ∧ s.2.Allows c r ∧ s'.2 = s.2.after s.1 c r
  launch _ _ p := ∃ ops, p = runAll H U ops
  kill t s s' := s' = (s.1.release t,s.2)

/-- What is there now agrees with the store that the threads see. -/
structure Disk.Mirrors (d : Disk) (w : World) : Prop where
  dirs : d.dirs.now = w.dirs
  sidecars : ∀ path, d.sidecars.now path = w.index.lookup path
  blobs : ∀ digest, (d.blobs.now digest).map StoredFile.content = w.blobs.lookup digest

section durable
variable {H : Sha256} {U : UrlCrate} {t : ThreadId} {w w' : World} {d : Disk}

theorem Disk.mirrors_fresh : Disk.fresh.Mirrors .fresh := ⟨rfl,fun _ => rfl,fun _ => rfl⟩

theorem Disk.Mirrors.of_eq {d' : Disk} (h : d.Mirrors w) (hdirs : d'.dirs.now = d.dirs.now)
    (hsidecars : d'.sidecars.now = d.sidecars.now) (hblobs : d'.blobs.now = d.blobs.now) (hw : w'.dirs = w.dirs)
    (hi : w'.index = w.index) (hb : w'.blobs = w.blobs) : d'.Mirrors w' := by
  refine ⟨?_,fun path => ?_,fun digest => ?_⟩
  · rw [hdirs,hw,h.dirs]
  · rw [hsidecars,hi,h.sidecars]
  · rw [hblobs,hb,h.blobs]

theorem Disk.Mirrors.cache {c : CacheCall} {x : c.Choice} {r : c.Ret} (h : d.Mirrors w)
    (hx : w.runCache t c x = some (r,w')) : d.Mirrors w' := by
  cases c with
  | writeState state note =>
    cases hx
    cases note <;> exact h.of_eq rfl rfl rfl rfl rfl rfl
  | _ =>
    simp only [World.runCache] at hx
    repeat' split at hx
    all_goals
      cases hx
    all_goals exact h.of_eq rfl rfl rfl rfl rfl rfl

theorem Disk.Mirrors.sidecar {path : String} {o : Option Sidecar} (h : d.Mirrors w) (hdirs : w'.dirs = w.dirs)
    (hblobs : w'.blobs = w.blobs) (hpath : w'.index.lookup path = o)
    (hothers : ∀ other ≠ path, w'.index.lookup other = w.index.lookup other) :
    Disk.Mirrors { d with sidecars := d.sidecars.change (· = path) o } w' := by
  refine ⟨by rw [hdirs,h.dirs],fun other => ?_,fun digest => by rw [hblobs,h.blobs]⟩
  by_cases ho : other = path
  · rw [ho,hpath]
    exact Entries.now_change (by simp)
  · rw [hothers other ho,← h.sidecars]
    exact Entries.now_change_of_not (by simpa using ho)

theorem Disk.Mirrors.blob {digest : String} {o : Option StoredFile} (h : d.Mirrors w) (hdirs : w'.dirs = w.dirs)
    (hindex : w'.index = w.index) (hdigest : w'.blobs.lookup digest = o.map StoredFile.content)
    (hothers : ∀ other ≠ digest, w'.blobs.lookup other = w.blobs.lookup other) :
    Disk.Mirrors { d with blobs := d.blobs.change (· = digest) o } w' := by
  refine ⟨by rw [hdirs,h.dirs],fun path => by rw [hindex,h.sidecars],fun other => ?_⟩
  by_cases ho : other = digest
  · rw [ho,hdigest]
    exact congrArg _ (Entries.now_change (by simp))
  · rw [hothers other ho,← h.blobs]
    exact congrArg _ (Entries.now_change_of_not (by simpa using ho))

theorem Disk.Mirrors.fs {c : FsCall} {x : c.Choice} {r : Except IoError c.Out} (h : d.Mirrors w)
    (hx : w.runFs t c x = some (r,w')) : (d.follow w c r).Mirrors w' := by
  cases c with
  | createIndexDirs path =>
    simp only [World.runFs] at hx
    repeat' split at hx
    all_goals cases hx
    · exact h
    · exact h
    · refine ⟨?_,h.sidecars,h.blobs⟩
      funext dir
      simp [Disk.follow,Entries.change,h.dirs,Bool.or_comm]
  | persistSidecar path entry =>
    simp only [World.runFs] at hx
    split at hx
    · cases hx
      exact h
    · cases hx
      have hplaced : Disk.Mirrors { d with sidecars := d.sidecars.change (· = path) (some (.parsed entry)) }
          { w with index := w.index.insert path (.parsed entry) } :=
        h.sidecar rfl rfl (AList.lookup_insert _) fun other ho => AList.lookup_insert_ne ho
      exact hplaced.of_eq rfl rfl rfl rfl rfl rfl
  | unlinkSidecar path =>
    simp only [World.runFs] at hx
    split at hx
    · cases hx
      exact h.sidecar rfl rfl (AList.lookup_erase _ _) fun other ho => AList.lookup_erase_ne ho
    · rename_i hnone
      repeat' split at hx
      all_goals cases hx
      · exact h
      · exact h
      · exact h.sidecar rfl rfl hnone fun _ _ => rfl
  | persistBlob tmp digest =>
    simp only [World.runFs] at hx
    split at hx
    · rename_i file hl
      cases hx
      refine h.blob rfl rfl ?_ fun other ho => AList.lookup_insert_ne ho
      rw [hl,AList.lookup_insert]
      rfl
    · cases hx
      exact h
  | unlinkBlob digest =>
    cases hx
    exact h.blob rfl rfl (AList.lookup_erase _ _) fun other ho => AList.lookup_erase_ne ho
  | appendTmp tmp buf =>
    simp only [World.runFs] at hx
    split at hx <;> cases hx <;> exact h.of_eq rfl rfl rfl rfl rfl rfl
  | _ =>
    simp only [World.runFs] at hx
    repeat' split at hx
    all_goals
      cases hx
    all_goals exact h.of_eq rfl rfl rfl rfl rfl rfl

/-- The directory entries follow the store. -/
theorem Disk.Mirrors.step {c : Call} {r : c.Ret} (h : d.Mirrors w) (hd : c.Does t w r w') :
    (d.after w c r).Mirrors w' := by
  rcases hd with ⟨x,hx⟩ | hf
  · cases c with
    | net c =>
      cases hx
      exact h
    | cache c => exact h.cache hx
    | fs c => exact h.fs hx
  · cases hf with
    | fs c w e => 
      cases c
      case appendTmp => exact h.of_eq rfl rfl rfl rfl rfl rfl
      all_goals exact h
    | append e n hl => exact h.of_eq rfl rfl rfl rfl rfl rfl

/-- What is there now. -/
def Disk.present (d : Disk) : Remains where
  shards := d.shards.now
  blobs digest := (d.blobs.now digest).map StoredFile.content
  dirs := d.dirs.now
  sidecars := d.sidecars.now

/-- The power may be lost without a loss. -/
theorem Disk.leaves_present : d.Leaves d.present := by
  refine ⟨Entries.leaves_now,Entries.leaves_now,Entries.leaves_now,d.blobs.now,Entries.leaves_now,fun digest => ?_⟩
  simp only [Disk.present]
  cases d.blobs.now digest with
  | none => exact .none
  | some file => exact .some fun _ => rfl

/-- The entry of a shard is never certain to survive, and a sidecar can be found only after
one was renamed into place. -/
structure Disk.Exposed (d : Disk) : Prop where
  shards : ∀ shard, false ∈ d.shards.after shard
  bare : d.placed = [] → ∀ path sidecar, some sidecar ∉ d.sidecars.after path

theorem Disk.exposed_fresh : Disk.fresh.Exposed := by
  refine ⟨fun shard => Entries.mem_durable.mpr rfl,fun _ path sidecar h => ?_⟩
  cases Entries.mem_durable.mp h

/-- No step syncs `blobs/`. -/
theorem Disk.Exposed.after (h : d.Exposed) (c : Call) (r : c.Ret) : (d.after w c r).Exposed := by
  cases c with
  | net c => exact h
  | cache c => exact h
  | fs c =>
    cases c with
    | createBlobDir digest =>
      cases r with
      | error e => exact h
      | ok out => exact ⟨fun shard => Entries.mem_change_of_mem (h.shards shard),h.bare⟩
    | persistSidecar path entry =>
      cases r with
      | error e => exact h
      | ok out => exact ⟨h.shards,fun hplaced => absurd hplaced (List.cons_ne_nil _ _)⟩
    | syncIndexDir path =>
      cases r with
      | error e => exact h
      | ok out => exact ⟨h.shards,fun hplaced other sidecar hs => h.bare hplaced other sidecar (Entries.mem_of_mem_sync hs)⟩
    | unlinkSidecar path =>
      cases r with
      | error e => exact h
      | ok out =>
        refine ⟨h.shards,fun hplaced other sidecar hs => ?_⟩
        rcases Entries.mem_change.mp hs with hs | ⟨-,hnone⟩
        · exact h.bare hplaced other sidecar hs
        · cases hnone
    | appendTmp tmp buf => exact ⟨h.shards,h.bare⟩
    | _ => cases r <;> exact ⟨h.shards,h.bare⟩

/-- A disk without a sidecar has nothing to lose. -/
theorem Disk.Exposed.survives (h : d.Exposed) (hplaced : d.placed = []) : d.Survives H := by
  intro m hm path sidecar hs
  have hmem := hm.sidecars path
  rw [hs.2] at hmem
  exact absurd hmem (h.bare hplaced path sidecar)

/-- A step leaves the history of sidecars as it was, or puts one more into place. -/
theorem Disk.placed_after (d : Disk) (w : World) (c : Call) (r : c.Ret) (hallows : d.Allows c r) :
    (d.after w c r).placed = d.placed ∨ ∃ path entry,
      (d.after w c r).placed = path :: d.placed ∧ (d.after w c r).shards = d.shards ∧
      (∀ dir, World.isAncestor dir path = true → (d.after w c r).dirs.now dir = true) ∧
      (d.after w c r).sidecars.now path = some (.parsed entry) := by
  cases c with
  | net c => exact .inl rfl
  | cache c => exact .inl rfl
  | fs c =>
    cases c with
    | persistSidecar path entry =>
      cases r with
      | error e => exact .inl rfl
      | ok out => exact .inr ⟨path,entry,rfl,rfl,hallows,Entries.now_change (by simp)⟩
    | appendTmp tmp buf => exact .inl rfl
    | _ => cases r <;> exact .inl rfl

/-- Right after a sidecar was renamed into place, it may be found without the shard of its
blob. -/
theorem Disk.Exposed.lost {path : String} {entry : IndexEntry} (h : d.Exposed)
    (hdirs : ∀ dir, World.isAncestor dir path = true → d.dirs.now dir = true)
    (hsidecar : d.sidecars.now path = some (.parsed entry)) : ¬d.Survives H := by
  intro hsurvives
  let m : Remains := { d.present with shards := Function.update d.shards.now (shardOf entry.digest) false }
  have hleaves : d.Leaves m := by
    obtain ⟨hshards,hdirs,hsidecars,hblobs⟩ := Disk.leaves_present (d := d)
    exact ⟨hshards.update (h.shards _),hdirs,hsidecars,hblobs⟩
  obtain ⟨entry',body,he,hblob,-⟩ := hsurvives m hleaves path (.parsed entry) ⟨hdirs,hsidecar⟩
  cases he
  simp only [Remains.blob,m,Function.update_self,Bool.false_eq_true,if_false] at hblob
  cases hblob

abbrev PoweredConfig := Config ThreadId Call Call.Ret (World × Disk) Unit

/-- A step of the system leaves the directory entries alone or is a call of some thread. -/
theorem powered_next {c c' : PoweredConfig} (h : (powered H U).Next c c') :
    c'.state.2 = c.state.2 ∨ ∃ (t : ThreadId) (cl : Call) (r : cl.Ret), cl.Does t c.state.1 r c'.state.1 ∧
      c.state.2.Allows cl r ∧ c'.state.2 = c.state.2.after c.state.1 cl r := by
  cases h with
  | launch _ _ => exact .inl rfl
  | call _ hd => exact .inr ⟨_,_,_,hd⟩
  | finish _ => exact .inl rfl
  | kill _ hk =>
    subst hk
    exact .inl rfl

theorem exposed_of_reaches {c c' : PoweredConfig} (hr : (powered H U).Reaches c c') (h : c.state.2.Exposed) :
    c'.state.2.Exposed := by
  induction hr with
  | refl => exact h
  | tail _ hn ih =>
    rcases powered_next hn with he | ⟨t,cl,r,-,-,he⟩
    · rw [he]
      exact ih
    · rw [he]
      exact ih.after cl r

/-- Without a loss of power the entries are those of the store. -/
theorem mirrors_of_reaches {c : PoweredConfig} (hr : (powered H U).Reaches (System.init (.fresh,.fresh)) c) :
    c.state.2.Mirrors c.state.1 := by
  induction hr with
  | refl => exact Disk.mirrors_fresh
  | tail _ hn ih =>
    cases hn with
    | launch _ _ => exact ih
    | call _ hd =>
      obtain ⟨hdoes,-,he⟩ := hd
      simp only [he]
      exact ih.step hdoes
    | finish _ => exact ih
    | kill _ hk =>
      subst hk
      exact ih.of_eq rfl rfl rfl rfl rfl rfl

theorem bare_of_reaches {c c' : PoweredConfig} (hr : (powered H U).Reaches c c') (h : c'.state.2.placed = []) :
    c.state.2.placed = [] := by
  induction hr with
  | refl => exact h
  | tail _ hn ih =>
    apply ih
    rcases powered_next hn with he | ⟨t,cl,r,-,hallows,he⟩
    · rwa [he] at h
    · rw [he] at h
      rcases Disk.placed_after _ _ cl r hallows with hsame | ⟨path,entry,hplaced,-⟩
      · rwa [hsame] at h
      · rw [hplaced] at h
        cases h

/-- Some state of a run that has put a sidecar into place does not survive. -/
theorem lost_of_placed {c : PoweredConfig} (hr : (powered H U).Reaches (System.init (.fresh,.fresh)) c)
    (h : c.state.2.placed ≠ []) : ∃ c', (powered H U).Reaches (System.init (.fresh,.fresh)) c' ∧
      (powered H U).Reaches c' c ∧ ¬c'.state.2.Survives H := by
  induction hr with
  | refl => exact absurd rfl h
  | @tail b c hp hn ih =>
    by_cases hb : b.state.2.placed = []
    · have hnew : (powered H U).Reaches (System.init (.fresh,.fresh)) c := .tail hp hn
      have hexposed := exposed_of_reaches hnew Disk.exposed_fresh
      refine ⟨c,hnew,.refl,?_⟩
      rcases powered_next hn with he | ⟨t,cl,r,-,hallows,he⟩
      · exact absurd (he ▸ hb) h
      · rw [he] at h hexposed ⊢
        rcases Disk.placed_after _ _ cl r hallows with hsame | ⟨path,entry,-,-,hdirs,hsidecar⟩
        · exact absurd (hsame.trans hb) h
        · exact hexposed.lost hdirs hsidecar
    · obtain ⟨c',hc',hto,hlost⟩ := ih hb
      exact ⟨c',hc',hto.tail hn,hlost⟩

/-- One import by one thread, from the lock of its key to its return. -/
theorem powered_import : ∃ c, (powered .sample (twoHosts "a.com" "b.org")).Reaches
    (System.init (.fresh,.fresh)) c ∧ c.thread 0 = .running (.fresh,.fresh) (.done ()) ∧
      c.state.2.placed = ["abc.json"] ∧
      (∀ dir, World.isAncestor dir "abc.json" = true → c.state.2.dirs.now dir = true) ∧
      ∃ entry, c.state.2.sidecars.now "abc.json" = some (.parsed entry) := by
  have hstep : ∀ {c : Call} {w w' : World} {d : Disk} {r : c.Ret}, c.Does 0 w r w' → d.Allows c r →
      (powered .sample (twoHosts "a.com" "b.org")).step 0 c (w,d) r (w',d.after w c r) :=
    fun hdoes hallows => ⟨hdoes,hallows,rfl⟩
  have hruns : ∃ events s, (runAll .sample (twoHosts "a.com" "b.org") [.importFile .sample "/abc"]).Runs
      ((powered .sample (twoHosts "a.com" "b.org")).step 0) (.fresh,.fresh) events () s ∧
      s.2.placed = ["abc.json"] ∧
      (∀ dir, World.isAncestor dir "abc.json" = true → s.2.dirs.now dir = true) ∧
      ∃ entry, s.2.sidecars.now "abc.json" = some (.parsed entry) :=
    ⟨_,_,.call (hstep (.inl ⟨(),rfl⟩) trivial) (.call (hstep (.inl ⟨1,rfl⟩) trivial)
      (.call (hstep (.inl ⟨(0 : ℕ),rfl⟩) trivial) (.call (hstep (.inl ⟨[0x61,0x62,0x63],rfl⟩) trivial)
      (.call (hstep (.inl ⟨(),rfl⟩) trivial) (.call (hstep (.inl ⟨7,rfl⟩) trivial)
      (.call (hstep (.inl ⟨(),rfl⟩) trivial) (.call (hstep (.inl ⟨(),rfl⟩) trivial)
      (.call (hstep (.inl ⟨(),rfl⟩) trivial) (.call (hstep (.inl ⟨(),rfl⟩) trivial)
      (.call (hstep (.inl ⟨(),rfl⟩) trivial) (.call (hstep (.inl ⟨(),rfl⟩) rfl)
      (.call (hstep (.inl ⟨(),rfl⟩) trivial) (.call (hstep (.inl ⟨(),rfl⟩) trivial)
      (.call (hstep (.inl ⟨(),rfl⟩) trivial) (.call (hstep (.inl ⟨(),rfl⟩) fun _ h => if_pos h)
      (.call (hstep (.inl ⟨(),rfl⟩) trivial) (.call (hstep (.inl ⟨(),rfl⟩) trivial)
      (.call (hstep (.inl ⟨(),rfl⟩) trivial) (.done _ _))))))))))))))))))),rfl,
      fun _ h => if_pos h,_,rfl⟩
  obtain ⟨events,s,hruns,hplaced⟩ := hruns
  have hr : (powered .sample (twoHosts "a.com" "b.org")).Reaches (System.init (.fresh,.fresh)) _ :=
    .head (.launch (t := 0) rfl ⟨[.importFile .sample "/abc"],rfl⟩) (System.reaches_of_runs rfl hruns)
  exact ⟨_,hr,rfl,hplaced⟩

/-- Started in an empty cache root, a run survives a loss of power at each of its steps
just as long as it has put no sidecar into place: `blobs/` is never synced. -/
theorem survives_iff {c : PoweredConfig} (hr : (powered H U).Reaches (System.init (.fresh,.fresh)) c) :
    (∀ c', (powered H U).Reaches (System.init (.fresh,.fresh)) c' → (powered H U).Reaches c' c →
      c'.state.2.Survives H) ↔ c.state.2.placed = [] := by
  constructor
  · intro h
    by_contra hplaced
    obtain ⟨c',hc',hto,hlost⟩ := lost_of_placed hr hplaced
    exact hlost (h c' hc' hto)
  · intro hplaced c' hc' hto
    exact (exposed_of_reaches hc' Disk.exposed_fresh).survives (bare_of_reaches hto hplaced)

/-- The run of one import. -/
theorem survives_iff_import : ∃ c, (powered .sample (twoHosts "a.com" "b.org")).Reaches
    (System.init (.fresh,.fresh)) c ∧ ¬∀ c', (powered .sample (twoHosts "a.com" "b.org")).Reaches
      (System.init (.fresh,.fresh)) c' → (powered .sample (twoHosts "a.com" "b.org")).Reaches c' c →
      c'.state.2.Survives .sample := by
  obtain ⟨c,hr,-,hplaced,-⟩ := powered_import
  refine ⟨c,hr,fun h => ?_⟩
  have hnone := (survives_iff hr).mp h
  rw [hplaced] at hnone
  cases hnone

/-- Power that is lost after an import has returned may leave its sidecar without its blob. -/
theorem import_lost : ∃ c m, (powered .sample (twoHosts "a.com" "b.org")).Reaches
    (System.init (.fresh,.fresh)) c ∧ c.thread 0 = .running (.fresh,.fresh) (.done ()) ∧
      c.state.2.Leaves m ∧ ¬m.Sound .sample := by
  obtain ⟨c,hr,hdone,-,hdirs,entry,hsidecar⟩ := powered_import
  have hlost := (exposed_of_reaches hr Disk.exposed_fresh).lost (H := .sample) hdirs hsidecar
  obtain ⟨m,hleaves,hunsound⟩ := not_forall₂.mp hlost
  exact ⟨c,m,hr,hdone,hleaves,hunsound⟩

end durable
end StarfieldDatastore
