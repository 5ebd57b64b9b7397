import StarfieldDatastore.Importing
import StarfieldDatastore.Eviction
import StarfieldDatastore.Mended

/-! Two keys in one store. Neither is in the way of the other, unless the sidecar of one
lies where the other needs a directory. -/
namespace StarfieldDatastore
open Interleaving

/-- A store that nobody works on and nobody has tampered with. -/
structure Idle (H : Sha256) (w : World) : Prop where
  locks : ∀ name, w.locks name = none
  blobs : ∀ digest content, w.blobs.lookup digest = some content → H.hex content = digest
  sidecars : ∀ path sidecar, w.index.lookup path = some sidecar → ∃ key entry, path = indexPath key ∧
    sidecar = .parsed entry ∧ isDigest entry.digest = true
  files : ∀ path ∈ w.index.keys, w.dirs path = false
  rooted : ∀ path ∈ w.index.keys, ∀ dir, World.isAncestor dir path = true → w.dirs dir = true

/-- The key leads to this content. -/
def Leads (H : Sha256) (key : ArtifactKey) (body : Bytes) (w : World) : Prop :=
  ∃ entry, Filed H key entry body w ∧ body.length = entry.bytes

section idle
variable {H : Sha256} {U : UrlCrate} {ds : Datastore} {t : ThreadId} {w w' : World} {artifact : Artifact}
  {key other : ArtifactKey} {entry : IndexEntry} {body : Bytes}

theorem idle_fresh : Idle H .fresh :=
  ⟨fun _ => rfl,fun _ _ h => (by cases h),fun _ _ h => (by cases h),fun _ h => (by cases h),fun _ h => (by cases h)⟩

theorem Idle.treelike (h : Idle H w) : Treelike w := by
  intro path hpath
  refine ⟨h.files path hpath,List.any_eq_false.mpr fun file hfile habove => ?_⟩
  have hdir := h.rooted path hpath file habove
  rw [h.files file hfile] at hdir
  cases hdir

theorem Idle.legible (h : Idle H w) : Legible w := by
  intro key hkey
  obtain ⟨path,hpath,hkey⟩ := mem_listed.mp hkey
  obtain ⟨sidecar,hsidecar⟩ := Option.isSome_iff_exists.mp (AList.lookup_isSome.mpr hpath)
  obtain ⟨key',entry,rfl,rfl,hdigest⟩ := h.sidecars path sidecar hsidecar
  rw [keyOfPath_indexPath] at hkey
  cases hkey
  simpa only [World.Readable,World.look,hsidecar] using hdigest

theorem Leads.readable (h : Leads H key body w) : w.Readable key := by
  obtain ⟨entry,hfiled,-⟩ := h
  simpa only [World.Readable,World.look,hfiled.sidecar] using hfiled.hex ▸ H.shape body

theorem Leads.listed (h : Leads H key body w) : key ∈ w.listed := by
  obtain ⟨entry,hfiled,-⟩ := h
  exact listed_of_entryAt (entryAt_eq.mpr hfiled.sidecar)

theorem lookupLocal_hit (ds : Datastore) (h : Leads H artifact.key body w) (hwants : artifact.Wants H body) :
    ∃ entry, (ds.lookupLocal H artifact).run.consult w.answer = .ok (some (blobPath entry.digest,entry)) ∧
      Filed H artifact.key entry body w := by
  have hreadable := h.readable
  obtain ⟨entry,hfiled,hlen⟩ := h
  obtain ⟨path,hpath⟩ := localHit_serves.mpr ⟨⟨body,hfiled.blob,hfiled.hex,hlen⟩,body,hfiled.blob,hwants⟩
  obtain ⟨events,hfinishes⟩ := Program.finishes_consult (Datastore.localHit H artifact entry).run w.answer
  rw [hpath] at hfinishes
  obtain rfl := localHit_path hfinishes
  refine ⟨entry,?_,hfiled⟩
  rw [Datastore.lookupLocal,Program.consult_bind_run,readEntry_readable ds.layout hreadable,
    entryAt_eq.mpr hfiled.sidecar]
  simp only [Program.consult_bind_run,hpath]
  rfl

/-- `get` serves this content from the disk and changes nothing. -/
def Gives (H : Sha256) (U : UrlCrate) (artifact : Artifact) (body : Bytes) (w : World) : Prop :=
  ∀ (ds : Datastore) (t : ThreadId), (ds.get H U artifact).run.Total (Call.Works t) (fun out u =>
    (∃ path, out = .ok path ∧ u.fileAt path = some body) ∧ u = w) w

theorem Leads.gives (h : Leads H artifact.key body w) (hwants : artifact.Wants H body)
    (hfree : ∀ name, w.locks name = none) : Gives H U artifact body w := by
  intro ds t
  obtain ⟨entry,hhit,hfiled⟩ := lookupLocal_hit ds h hwants
  refine Program.Total.bind_run (withLock_total (hfree _) (Program.Total.bind_run
    ((total_looks (lookupLocal_only fun _ hc => hc)).mono ?_)))
  rintro out u ⟨hout,rfl⟩
  rw [answer_setLock,hhit] at hout
  subst hout
  refine ⟨Function.update_self _ _ _,?_⟩
  rw [setLock_free (hfree _)]
  exact ⟨⟨_,rfl,by simpa [World.fileAt,blobPath] using hfiled.blob⟩,rfl⟩

theorem Added.mem_keys (h : Added H key entry body w w') {path : String} :
    path ∈ w'.index.keys ↔ path = indexPath key ∨ path ∈ w.index.keys := by
  rw [h.index,← AList.mem_keys,AList.mem_insert,AList.mem_keys]

theorem Added.lookup (h : Added H key entry body w w') :
    w'.index.lookup (indexPath key) = some (.parsed entry) := by
  rw [h.index]
  exact AList.lookup_insert _

theorem Added.lookup_ne (h : Added H key entry body w w') {path : String} (hne : path ≠ indexPath key) :
    w'.index.lookup path = w.index.lookup path := by
  rw [h.index]
  exact AList.lookup_insert_ne hne

theorem Added.idle (h : Added H key entry body w w') (hw : Idle H w) (hopen : w.Open key)
    (hdigest : entry.digest = H.hex body) : Idle H w' := by
  have hdirs : ∀ dir, w'.dirs dir = (w.dirs dir || World.isAncestor dir (indexPath key)) := congrFun h.dirs
  refine ⟨fun name => (congrFun h.locks name).trans (hw.locks name),?_,?_,?_,?_⟩
  · intro digest content hcontent
    cases h.landed with
    | there _ _ same => exact hw.blobs digest content (same ▸ hcontent)
    | moved free blobs =>
      rw [blobs] at hcontent
      by_cases hd : digest = H.hex body
      · rw [hd,AList.lookup_insert] at hcontent
        cases hcontent
        exact hd.symm
      · exact hw.blobs digest content (by rwa [AList.lookup_insert_ne hd] at hcontent)
  · intro path sidecar hsidecar
    by_cases hp : path = indexPath key
    · rw [hp,h.lookup] at hsidecar
      cases hsidecar
      exact ⟨key,entry,hp,rfl,hdigest ▸ H.shape body⟩
    · exact hw.sidecars path sidecar ((h.lookup_ne hp).symm.trans hsidecar)
  · intro path hpath
    rw [hdirs]
    rcases h.mem_keys.mp hpath with rfl | hpath
    · rw [hopen.1,not_isAncestor_self]
      rfl
    · rw [hw.files path hpath,Bool.false_or]
      exact Bool.eq_false_iff.mpr (List.any_eq_false.mp hopen.2 path hpath)
  · intro path hpath dir hdir
    rw [hdirs]
    rcases h.mem_keys.mp hpath with rfl | hpath
    · rw [hdir,Bool.or_true]
    · rw [hw.rooted path hpath dir hdir,Bool.true_or]

/-- The sidecar of another key still has room, unless it lies above or below. -/
theorem Added.open_iff (h : Added H key entry body w w') : w'.Open other ↔ w.Open other ∧
    World.isAncestor (indexPath other) (indexPath key) = false ∧
      World.isAncestor (indexPath key) (indexPath other) = false := by
  have hblocked : w'.blocked (indexPath other) = false ↔ w.blocked (indexPath other) = false ∧
      World.isAncestor (indexPath key) (indexPath other) = false := by
    simp only [World.blocked,List.any_eq_false,h.mem_keys,or_imp,forall_and,forall_eq,Bool.not_eq_true]
    exact and_comm
  rw [World.Open,World.Open,h.dirs,hblocked,Bool.or_eq_false_iff]
  tauto

theorem Added.leads (h : Added H key entry body w w') (hdigest : entry.digest = H.hex body)
    (hbytes : entry.bytes = body.length)
    (happart : ∀ old, w.blobs.lookup (H.hex body) = some old → H.hex old = H.hex body → old = body) :
    Leads H key body w' := by
  obtain ⟨blob,hblob⟩ := h.landed.blob
  have hsame : blob = body := by
    rcases hblob.origin with hsame | hold
    · exact hsame
    · exact happart blob hold hblob.hex
  subst hsame
  exact ⟨entry,⟨h.lookup,hdigest ▸ hblob.file,hdigest.symm⟩,hbytes.symm⟩

theorem Added.others (h : Added H key entry body w w') (hne : other ≠ key) {old : Bytes}
    (hold : Leads H other old w) : Leads H other old w' := by
  obtain ⟨found,hfiled,hlen⟩ := hold
  refine ⟨found,⟨?_,h.landed.spared _ _ hfiled.blob,hfiled.hex⟩,hlen⟩
  rw [h.lookup_ne fun he => hne (indexPath_injective he)]
  exact hfiled.sidecar

theorem fewer_without (w : World) (key : ArtifactKey) : Fewer w (w.without key) := by
  refine ⟨rfl,fun path => ?_⟩
  by_cases hp : path = indexPath key
  · exact .inr (hp ▸ AList.lookup_erase _ _)
  · exact .inl (AList.lookup_erase_ne hp)

/-- Another key keeps what it leads to. -/
theorem Dropped.leads (h : Dropped key w w') (hne : other ≠ key) {old : Bytes} (hold : Leads H other old w) :
    Leads H other old w' := by
  obtain ⟨found,hfiled,hlen⟩ := hold
  refine ⟨found,⟨?_,?_,hfiled.hex⟩,hlen⟩
  · rw [h.others _ fun he => hne (indexPath_injective he)]
    exact hfiled.sidecar
  · rw [h.kept _ fun hs => hs.2 other hne found (entryAt_eq.mpr hfiled.sidecar) rfl]
    exact hfiled.blob

theorem Idle.remove_total (hw : Idle H w) (hkey : Leads H key body w) (hne : other ≠ key) {old : Bytes}
    (hold : Leads H other old w) : (ds.remove H key).run.Total (Call.Works t) (fun out u => out = .ok () ∧
      Leads H other old u ∧ ∀ name, u.locks name = none) w := by
  refine (StarfieldDatastore.remove_total (hw.locks _) (hw.locks _)).mono ?_
  rintro out u ⟨hends,hlocks⟩
  cases hends with
  | absent hnone =>
    obtain ⟨entry,hfiled,-⟩ := hkey
    cases hnone.symm.trans hfiled.sidecar
  | unreadable e h => exact absurd hkey.readable h
  | half e _ _ h => exact absurd ((fewer_without w key).legible hw.treelike hw.legible) h
  | dropped _ hdropped =>
    exact ⟨rfl,hdropped.leads hne hold,fun name => (congrFun hlocks name).trans (hw.locks name)⟩

end idle

/-- A file to import, with the chunks in which it is read. -/
structure Seed where
  artifact : Artifact
  path : String
  chunks : List Bytes
  nonempty : [] ∉ chunks

namespace Seed

def body (s : Seed) : Bytes := s.chunks.flatten

def key (s : Seed) : ArtifactKey := s.artifact.key

def importing (s : Seed) (H : Sha256) : Op (List String) := Datastore.importFile H s.artifact s.path

end Seed

/-- `get` serves the content of `s` after the key has been removed, which succeeds. -/
def Outlives (H : Sha256) (U : UrlCrate) (s : Seed) (key : ArtifactKey) (w : World) : Prop :=
  ∀ (ds : Datastore) (t : ThreadId), (ds.remove H key).run.Total (Call.Works t) (fun out u =>
    out = .ok () ∧ Gives H U s.artifact s.body u) w

/-- Both are listed, each is served with its own content, and either can be removed without
the other. -/
structure SideBySide (H : Sha256) (U : UrlCrate) (s₁ s₂ : Seed) (w : World) : Prop where
  listed : ∀ t : ThreadId, Datastore.keys.run.Total (Call.Works t) (fun out u =>
    ∃ keys, out = .ok keys ∧ s₁.key ∈ keys ∧ s₂.key ∈ keys ∧ u = w) w
  gives₁ : Gives H U s₁.artifact s₁.body w
  gives₂ : Gives H U s₂.artifact s₂.body w
  removed₁ : Outlives H U s₂ s₁.key w
  removed₂ : Outlives H U s₁ s₂.key w

/-- Whatever is imported under the two keys, one after the other, into a store that has room for
their sidecars, succeeds and is there afterwards. SHA-256 tells the contents apart. -/
def Independent (H : Sha256) (U : UrlCrate) (k₁ k₂ : ArtifactKey) : Prop :=
  ∀ (t : ThreadId) (w : World) (s₁ s₂ : Seed), s₁.key = k₁ → s₂.key = k₂ → Idle H w →
    w.Open k₁ → w.Open k₂ → s₁.artifact.Wants H s₁.body → s₂.artifact.Wants H s₂.body →
    Set.InjOn H.hex {body | body = s₁.body ∨ body = s₂.body ∨ ∃ digest, w.blobs.lookup digest = some body} →
    (s₁.importing H).run.Total (Call.Copies t s₁.chunks) (fun out u => (∃ path, out = .ok path) ∧
      (s₂.importing H).run.Total (Call.Copies t s₂.chunks) (fun out v => (∃ path, out = .ok path) ∧
        SideBySide H U s₁ s₂ v.1) (u.1,[])) (w,[])

/-- The sidecar of one key lies where the other needs a directory. -/
def Shadows (a b : ArtifactKey) : Prop := ∃ rest, b.text = a.text++".json/"++rest

section independent
variable {H : Sha256} {U : UrlCrate} {t : ThreadId} {w w' : World} {s s₁ s₂ : Seed} {k₁ k₂ : ArtifactKey}

theorem shadows_iff {a b : ArtifactKey} : Shadows a b ↔ World.isAncestor (indexPath a) (indexPath b) = true := by
  rw [World.isAncestor,List.isPrefixOf_iff_prefix,indexPath,indexPath,String.toList_append,String.toList_append]
  have hsuffix : ".json/".toList = ".json".toList++['/'] := rfl
  have htext : ∀ rest : String, (a.text++".json/"++rest).toList =
      a.text.toList++".json".toList++['/']++rest.toList := by
    intro rest
    simp only [String.toList_append,hsuffix,List.append_assoc]
  have hwith : Shadows a b ↔ ∃ rest, b.text.toList = a.text.toList++".json".toList++['/']++rest := by
    constructor
    · rintro ⟨rest,hrest⟩
      exact ⟨rest.toList,hrest ▸ htext rest⟩
    · rintro ⟨rest,hrest⟩
      have hback : (String.ofList rest).toList = rest := String.toList_ofList
      refine ⟨String.ofList rest,String.toList_inj.mp ?_⟩
      rw [hrest,htext,hback]
  rw [hwith]
  constructor
  · rintro ⟨rest,hrest⟩
    exact ⟨rest++".json".toList,by rw [hrest,List.append_assoc _ rest]⟩
  · rintro ⟨tail,htail⟩
    rcases List.append_eq_append_iff.mp htail with ⟨rest,hrest,-⟩ | ⟨more,hmore,hjson⟩
    · exact ⟨rest,hrest⟩
    · rcases List.eq_nil_or_concat more with rfl | ⟨init,last,rfl⟩
      · exact ⟨[],by rw [List.append_nil] at hmore ⊢; exact hmore.symm⟩
      · -- the slash would be one of the characters of the suffix
        rw [List.concat_eq_append,← List.append_assoc] at hmore
        have hlast := (List.append_inj' hmore rfl).2
        cases hlast
        have hmem : '/' ∈ ".json".toList := by
          rw [hjson]
          simp
        exact absurd hmem (by decide)

theorem Seed.importing_ends (s : Seed) (hw : Idle H w) (left : List Bytes) :
    (s.importing H).run.Total (Call.Copies t s.chunks) (fun out u => ∃ entry, entry.digest = H.hex s.body ∧
      entry.bytes = s.body.length ∧ PublishEnds H s.artifact s.body entry w out u.1) (w,left) :=
  importFile_ends s.path s.nonempty (hw.locks _) (hw.locks _)

/-- A body that the artifact asks for is added where there is room. -/
theorem Seed.importing_adds (s : Seed) (hw : Idle H w) (hopen : w.Open s.key) (hwants : s.artifact.Wants H s.body)
    (left : List Bytes) : (s.importing H).run.Total (Call.Copies t s.chunks) (fun out u => (∃ path, out = .ok path) ∧
      ∃ entry, entry.digest = H.hex s.body ∧ entry.bytes = s.body.length ∧
        Added H s.key entry s.body w u.1) (w,left) := by
  refine (s.importing_ends hw left).mono ?_
  rintro out ⟨u,left⟩ ⟨entry,hdigest,hbytes,hends⟩
  dsimp only at hends
  cases hends with
  | rejected unwanted _ => exact absurd hwants unwanted
  | occupied there corrupt _ => exact absurd (hw.blobs _ _ there) corrupt
  | refused _ closed _ _ _ => exact absurd hopen closed
  | added _ _ added => exact ⟨⟨_,rfl⟩,entry,hdigest,hbytes,added⟩

theorem Seed.importing_refused (s : Seed) (hw : Idle H w) (hclosed : ¬ w.Open s.key) (left : List Bytes) :
    (s.importing H).run.Total (Call.Copies t s.chunks) (fun out _ => ∃ e, out = .error e) (w,left) := by
  refine (s.importing_ends hw left).mono ?_
  rintro out ⟨u,left⟩ ⟨entry,hdigest,hbytes,hends⟩
  dsimp only at hends
  cases hends with
  | rejected _ _ => exact ⟨_,rfl⟩
  | occupied _ _ _ => exact ⟨_,rfl⟩
  | refused _ _ _ _ _ => exact ⟨_,rfl⟩
  | added _ free _ => exact absurd free hclosed

theorem sideBySide (hw : Idle H w) (hne : s₁.key ≠ s₂.key) (h₁ : Leads H s₁.key s₁.body w)
    (h₂ : Leads H s₂.key s₂.body w) (hwants₁ : s₁.artifact.Wants H s₁.body)
    (hwants₂ : s₂.artifact.Wants H s₂.body) : SideBySide H U s₁ s₂ w := by
  constructor
  · intro t
    refine (total_looks keys_looks).mono ?_
    rintro out u ⟨rfl,rfl⟩
    exact ⟨_,consult_listed,h₁.listed,h₂.listed,rfl⟩
  · exact h₁.gives hwants₁ hw.locks
  · exact h₂.gives hwants₂ hw.locks
  · intro ds t
    refine (hw.remove_total h₁ hne.symm h₂).mono ?_
    rintro out u ⟨rfl,hleads,hlocks⟩
    exact ⟨rfl,hleads.gives hwants₂ hlocks⟩
  · intro ds t
    refine (hw.remove_total h₂ hne h₁).mono ?_
    rintro out u ⟨rfl,hleads,hlocks⟩
    exact ⟨rfl,hleads.gives hwants₁ hlocks⟩

/-- The two sidecars have room beside each other. -/
theorem independent_of_clear (hne : k₁ ≠ k₂) (h₁ : ¬ Shadows k₁ k₂) (h₂ : ¬ Shadows k₂ k₁) :
    Independent H U k₁ k₂ := by
  rintro t w s₁ s₂ rfl rfl hw hopen₁ hopen₂ hwants₁ hwants₂ hinj
  rw [shadows_iff,Bool.not_eq_true] at h₁ h₂
  refine (s₁.importing_adds hw hopen₁ hwants₁ []).mono ?_
  rintro out ⟨u,left⟩ ⟨hok,entry₁,hdigest₁,hbytes₁,hadded₁⟩
  refine ⟨hok,?_⟩
  have hu := hadded₁.idle hw hopen₁ hdigest₁
  refine (s₂.importing_adds hu (hadded₁.open_iff.mpr ⟨hopen₂,h₂,h₁⟩) hwants₂ []).mono ?_
  rintro out ⟨v,left⟩ ⟨hok,entry₂,hdigest₂,hbytes₂,hadded₂⟩
  refine ⟨hok,?_⟩
  have hleads₁ : Leads H s₁.key s₁.body u := by
    refine hadded₁.leads hdigest₁ hbytes₁ fun old hold hhex => hinj (.inr (.inr ⟨_,hold⟩)) (.inl rfl) hhex
  have hleads₂ : Leads H s₂.key s₂.body v := by
    refine hadded₂.leads hdigest₂ hbytes₂ fun old hold hhex => hinj ?_ (.inr (.inl rfl)) hhex
    cases hadded₁.landed with
    | there _ _ same => exact .inr (.inr ⟨_,same ▸ hold⟩)
    | moved free blobs =>
      rw [blobs] at hold
      by_cases hd : H.hex s₂.body = H.hex s₁.body
      · rw [hd,AList.lookup_insert] at hold
        exact .inl (Option.some.inj hold).symm
      · exact .inr (.inr ⟨_,by rwa [AList.lookup_insert_ne hd] at hold⟩)
  have hopen : u.Open s₂.key := hadded₁.open_iff.mpr ⟨hopen₂,h₂,h₁⟩
  exact sideBySide (hadded₂.idle hu hopen hdigest₂) hne (hadded₂.others hne hleads₁) hleads₂ hwants₁ hwants₂

/-- An empty file that any key can be given. -/
def Seed.empty (key : ArtifactKey) : Seed where
  artifact := { Artifact.sample with key := key, check := .none, expectedBytes := none }
  path := ""
  chunks := []
  nonempty := List.not_mem_nil

theorem Seed.empty_wants (key : ArtifactKey) : (Seed.empty key).artifact.Wants H (Seed.empty key).body :=
  ⟨fun _ h => (by cases h),trivial⟩

/-- In an empty store the second import fails where one sidecar is in the way of the other. -/
theorem not_independent (h : Shadows k₁ k₂ ∨ Shadows k₂ k₁) : ¬ Independent H U k₁ k₂ := by
  intro hindependent
  have hinj : Set.InjOn H.hex {body | body = (Seed.empty k₁).body ∨ body = (Seed.empty k₂).body ∨
      ∃ digest, World.fresh.blobs.lookup digest = some body} := by
    have hempty : ∀ body, body ∈ {body | body = (Seed.empty k₁).body ∨ body = (Seed.empty k₂).body ∨
        ∃ digest, World.fresh.blobs.lookup digest = some body} → body = [] := by
      rintro body (rfl | rfl | ⟨digest,hdigest⟩)
      · rfl
      · rfl
      · cases hdigest
    intro a ha b hb _
    rw [hempty a ha,hempty b hb]
  have hboth := hindependent 0 .fresh (.empty k₁) (.empty k₂) rfl rfl idle_fresh ⟨rfl,rfl⟩ ⟨rfl,rfl⟩
    (Seed.empty_wants k₁) (Seed.empty_wants k₂) hinj
  obtain ⟨events,out,⟨u,left⟩,hr⟩ := hboth.exists_runs
  obtain ⟨-,hsecond⟩ := hboth.of_runs hr
  obtain ⟨-,entry,hdigest,-,hadded⟩ := ((Seed.empty k₁).importing_adds idle_fresh ⟨rfl,rfl⟩
    (Seed.empty_wants k₁) []).of_runs hr
  have hclosed : ¬ u.Open (Seed.empty k₂).key := by
    rw [hadded.open_iff,← Bool.not_eq_true,← Bool.not_eq_true]
    rintro ⟨-,h₂,h₁⟩
    rcases h with h | h
    · exact h₁ (shadows_iff.mp h)
    · exact h₂ (shadows_iff.mp h)
  obtain ⟨events',out',v,hr'⟩ := hsecond.exists_runs
  obtain ⟨⟨path,rfl⟩,-⟩ := hsecond.of_runs hr'
  obtain ⟨e,he⟩ := ((Seed.empty k₂).importing_refused (hadded.idle idle_fresh ⟨rfl,rfl⟩ hdigest) hclosed
    []).of_runs hr'
  cases he

/-- Two keys are independent unless one begins with the other and `.json/`. -/
theorem independent_iff (H : Sha256) (U : UrlCrate) (hne : k₁ ≠ k₂) :
    Independent H U k₁ k₂ ↔ ¬ Shadows k₁ k₂ ∧ ¬ Shadows k₂ k₁ := by
  constructor
  · intro h
    exact ⟨fun hs => not_independent (.inl hs) h,fun hs => not_independent (.inr hs) h⟩
  · rintro ⟨h₁,h₂⟩
    exact independent_of_clear hne h₁ h₂

end independent

/-- Two keys of the usual kind. -/
theorem independent_iff_ephemerides : Independent .sample (twoHosts "a.com" "b.org")
    ⟨"jpl/de440.bsp",by decide⟩ ⟨"jpl/de441.bsp",by decide⟩ := by
  refine (independent_iff .sample (twoHosts "a.com" "b.org") (by simp)).mpr ⟨fun h => ?_,fun h => ?_⟩
  · exact absurd (shadows_iff.mp h) (by decide)
  · exact absurd (shadows_iff.mp h) (by decide)

/-- The sidecar of `a` is where that of `a.json/b` needs a directory. -/
theorem not_independent_nested : ¬ ∀ k₁ k₂ : ArtifactKey, k₁ ≠ k₂ →
    Independent .sample (twoHosts "a.com" "b.org") k₁ k₂ := by
  intro h
  have hshadows : Shadows ⟨"a",by decide⟩ ⟨"a.json/b",by decide⟩ := ⟨"b",by decide⟩
  exact not_independent (.inl hshadows) (h _ _ (by simp))

end StarfieldDatastore
