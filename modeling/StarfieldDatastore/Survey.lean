import StarfieldDatastore.Catalog
import StarfieldDatastore.Interleaving.Query

/-! What a look at the cache returns, as a function of what is on disk. -/
namespace StarfieldDatastore
open Interleaving

def Call.looks : Call → Bool
  | .fs c => c.looks
  | _ => false

namespace World

/-- What the disk answers to a look. -/
def look (w : World) : (c : FsCall) → Except IoError c.Out
  | .readSidecar path =>
    match w.index.lookup path with
    | some sidecar => .ok (some sidecar)
    | none =>
      if w.dirs path then .error isDirectory
      else if w.blocked path then .error notDirectory
      else .ok none
  | .listIndex => .ok w.index.keys
  | .isBlob digest => .ok (w.blobs.lookup digest).isSome
  | .blobLen digest =>
    match w.blobs.lookup digest with
    | some content => .ok content.length
    | none => .error notFound
  | .readBlob digest =>
    match w.blobs.lookup digest with
    | some content => .ok content
    | none => .error notFound
  | .listBlobs => .ok (w.blobs.entries.map fun e => (e.1,e.2.length))
  | _ => .error notFound

/-- The same for every call; nothing but a look has an answer that matters. -/
def answer (w : World) : (c : Call) → c.Ret
  | .fs c => w.look c
  | .net (.send _ _) => .error ()
  | .net .readBody => .ok []
  | .net (.s3Get _) => .ok none
  | .net .s3Read => .ok none
  | .net .systemNow => 0
  | .net (.objectHead _) => .ok none
  | .net (.objectPut _ _ _) => .error .http
  | .net (.objectPresign _) => .error .http
  | .cache .tryLockState => false
  | .cache .readState => w.cache
  | .cache .panics => false
  | .cache .lockState => ()
  | .cache .unlockState => ()
  | .cache (.writeState _ _) => ()
  | .cache .unwind => ()

/-- The keys that have a sidecar, as they are listed. -/
def listed (w : World) : List ArtifactKey :=
  (w.index.keys.filterMap keyOfPath).insertionSort fun a b => a.text ≤ b.text

/-- The entry of a key, if its sidecar parses. -/
def entryAt (w : World) (key : ArtifactKey) : Option IndexEntry :=
  match w.index.lookup (indexPath key) with
  | some (.parsed entry) => some entry
  | _ => none

/-- The listed keys with their entries. -/
def catalogue (w : World) : List (ArtifactKey × IndexEntry) :=
  w.listed.filterMap fun key => (w.entryAt key).map fun entry => (key,entry)

end World

section looks
variable {H : Sha256} {t : ThreadId} {w : World} {α : Type}

theorem runFs_look {c : FsCall} (hc : c.looks = true) (x : c.Choice) :
    w.runFs t c x = some (w.look c,w) := by
  cases c with
  | readSidecar path =>
    simp only [World.runFs,World.look]
    cases w.index.lookup path with
    | some sidecar => rfl
    | none =>
      simp only
      split
      · rfl
      · split <;> rfl
  | blobLen digest => simp only [World.runFs,World.look]; cases w.blobs.lookup digest <;> rfl
  | readBlob digest => simp only [World.runFs,World.look]; cases w.blobs.lookup digest <;> rfl
  | listIndex => rfl
  | isBlob digest => rfl
  | listBlobs => rfl
  | _ => cases hc

theorem works_look {c : Call} (hc : c.looks = true) : c.Works t w (w.answer c) w ∧
    ∀ r w', c.Works t w r w' → r = w.answer c ∧ w' = w := by
  cases c with
  | fs c =>
    have hchoice : Nonempty c.Choice := by cases c <;> exact inferInstance
    refine ⟨⟨Classical.choice hchoice,runFs_look hc _⟩,fun r w' h => ?_⟩
    obtain ⟨x,hx⟩ := h
    have hx := (runFs_look hc x).symm.trans hx
    cases hx
    exact ⟨rfl,rfl⟩
  | net c => cases hc
  | cache c => cases hc

/-- A program that only looks returns what it computes from the disk. -/
theorem total_looks {p : Prog α} (hp : p.Only fun c => c.looks = true) :
    p.Total (Call.Works t) (fun out w' => out = p.consult w.answer ∧ w' = w) w :=
  Program.Total.of_consult hp (fun _ hc => (works_look hc).1) fun _ hc => (works_look hc).2

/-- A look followed by `?` and the rest of an operation. -/
theorem consult_io_bind (c : FsCall) (f : c.Out → Op α) : (io c >>= f).run.consult w.answer =
    (match w.look c with
      | .ok out => (f out).run.consult w.answer
      | .error e => .error (.io e)) := by
  have hio : (io c).run.consult w.answer = (w.look c).mapError .io := rfl
  rw [Program.consult_bind_run,hio]
  cases w.look c <;> rfl

@[simp] theorem consult_isFile (digest : String) :
    (isFile digest).consult w.answer = (w.blobs.lookup digest).isSome := rfl

theorem consult_listed : Layout.keys.run.consult w.answer = .ok w.listed := rfl

theorem keys_looks : Layout.keys.run.Only fun c => c.looks = true := ⟨rfl,fun r => by cases r <;> trivial⟩

theorem readEntry_looks (layout : Layout) (key : ArtifactKey) :
    (layout.readEntry key).run.Only fun c => c.looks = true := readEntry_only layout key rfl

theorem entries_looks (ds : Datastore) : ds.entries.run.Only fun c => c.looks = true :=
  entries_only fun _ hc => hc

end looks

namespace World

/-- The sidecar of a key can be read, or there is none. -/
def Readable (w : World) (key : ArtifactKey) : Prop :=
  match w.look (.readSidecar (indexPath key)) with
  | .ok none => True
  | .ok (some (.parsed entry)) => isDigest entry.digest = true
  | _ => False

end World

/-- Every sidecar that is listed parses. -/
def Legible (w : World) : Prop := ∀ key ∈ w.listed, w.Readable key

section legible
variable {H : Sha256} {t : ThreadId} {w : World} {key : ArtifactKey} {entry : IndexEntry}

theorem entryAt_eq : w.entryAt key = some entry ↔ w.index.lookup (indexPath key) = some (.parsed entry) := by
  simp only [World.entryAt]
  cases h : w.index.lookup (indexPath key) with
  | none => simp
  | some sidecar => cases sidecar <;> simp

theorem mem_listed : key ∈ w.listed ↔ ∃ path ∈ w.index.keys, keyOfPath path = some key := by
  rw [World.listed,(List.perm_insertionSort _ _).mem_iff,List.mem_filterMap]

theorem listed_of_entryAt (h : w.entryAt key = some entry) : key ∈ w.listed := by
  rw [entryAt_eq] at h
  exact mem_listed.mpr ⟨indexPath key,AList.lookup_isSome.mp (by rw [h]; rfl),keyOfPath_indexPath key⟩

theorem mem_catalogue : (key,entry) ∈ w.catalogue ↔ w.entryAt key = some entry := by
  simp only [World.catalogue,List.mem_filterMap,Option.map_eq_some_iff,Prod.mk.injEq]
  constructor
  · rintro ⟨key',-,entry',hentry,rfl,rfl⟩
    exact hentry
  · intro hentry
    exact ⟨key,listed_of_entryAt hentry,entry,hentry,rfl,rfl⟩

theorem readable_look (hr : w.Readable key) : ∃ found, w.look (.readSidecar (indexPath key)) = .ok found ∧
    ∀ detail, found ≠ some (.malformed detail) := by
  unfold World.Readable at hr
  cases hl : w.look (.readSidecar (indexPath key)) with
  | error e =>
    rw [hl] at hr
    exact hr.elim
  | ok found =>
    rw [hl] at hr
    refine ⟨found,rfl,?_⟩
    rintro detail rfl
    exact hr

theorem look_readSidecar {found : Option Sidecar} (h : w.look (.readSidecar (indexPath key)) = .ok found) :
    w.index.lookup (indexPath key) = found := by
  simp only [World.look] at h
  cases hi : w.index.lookup (indexPath key) with
  | some sidecar =>
    rw [hi] at h
    exact Except.ok.inj h
  | none =>
    rw [hi] at h
    simp only at h
    split at h
    · cases h
    · split at h
      · cases h
      · exact Except.ok.inj h

/-- Reading a sidecar succeeds exactly when it can be read, with the entry that it has. -/
theorem readEntry_consult (layout : Layout) (w : World) (key : ArtifactKey) : (layout.readEntry key).run.consult w.answer = .ok (w.entryAt key) ∧
    w.Readable key ∨ (∃ e, (layout.readEntry key).run.consult w.answer = .error e) ∧ ¬ w.Readable key := by
  rw [Layout.readEntry,consult_io_bind,World.Readable]
  cases hl : w.look (.readSidecar (indexPath key)) with
  | error e => exact .inr ⟨⟨_,rfl⟩,fun h => h⟩
  | ok found =>
    have hi := look_readSidecar hl
    cases found with
    | none => exact .inl ⟨by simp [World.entryAt,hi],trivial⟩
    | some sidecar =>
      cases sidecar with
      | malformed detail => exact .inr ⟨⟨_,rfl⟩,fun h => h⟩
      | parsed entry =>
        by_cases hd : isDigest entry.digest = true
        · exact .inl ⟨by simp [World.entryAt,hi,hd],hd⟩
        · exact .inr ⟨⟨_,by simp only [hd]; rfl⟩,hd⟩

theorem readEntry_readable (layout : Layout) (h : w.Readable key) :
    (layout.readEntry key).run.consult w.answer = .ok (w.entryAt key) := by
  rcases readEntry_consult layout w key with ⟨he,-⟩ | ⟨-,hn⟩
  · exact he
  · exact absurd h hn

theorem Readable.digest (h : w.Readable key) (hkey : w.entryAt key = some entry) :
    isDigest entry.digest = true := by
  obtain ⟨found,hl,-⟩ := readable_look h
  have hi := look_readSidecar hl
  rw [entryAt_eq] at hkey
  rw [hkey] at hi
  subst hi
  simpa only [World.Readable,hl] using h

theorem legible_of_entries (h : ∀ key ∈ w.listed, (w.entryAt key).any (fun entry => isDigest entry.digest) = true) :
    Legible w := by
  intro key hkey
  obtain ⟨entry,hentry,hdigest⟩ := (Option.any_eq_true _ _).mp (h key hkey)
  simp only [World.Readable,World.look,entryAt_eq.mp hentry]
  exact hdigest

/-- The reference scan finds the entries that there are, unless a sidecar cannot be read. -/
theorem entries_consult (h : Legible w) (ds : Datastore) : ds.entries.run.consult w.answer = .ok w.catalogue := by
  have hgo : ∀ keys : List ArtifactKey, (∀ key ∈ keys, w.Readable key) →
      (Datastore.entries.go ds keys).run.consult w.answer =
        .ok (keys.filterMap fun key => (w.entryAt key).map fun entry => (key,entry)) := by
    intro keys hkeys
    induction keys with
    | nil => rfl
    | cons key keys ih =>
      simp only [Datastore.entries.go,Program.consult_bind_run,readEntry_readable ds.layout (hkeys key (by simp)),
        List.filterMap_cons]
      have ih := ih fun k hk => hkeys k (by simp [hk])
      cases w.entryAt key with
      | none => exact ih
      | some entry =>
        simp only [Program.consult_bind_run,ih]
        rfl
  simp only [Datastore.entries,Program.consult_bind_run,consult_listed]
  exact hgo w.listed h

theorem entries_illegible (h : ¬ Legible w) (ds : Datastore) : ∃ e, ds.entries.run.consult w.answer = .error e := by
  have hgo : ∀ keys : List ArtifactKey, (∃ key ∈ keys, ¬ w.Readable key) →
      ∃ e, (Datastore.entries.go ds keys).run.consult w.answer = .error e := by
    intro keys hkeys
    induction keys with
    | nil => obtain ⟨_,hmem,-⟩ := hkeys; cases hmem
    | cons key keys ih =>
      simp only [Datastore.entries.go,Program.consult_bind_run]
      rcases readEntry_consult ds.layout w key with ⟨he,hr⟩ | ⟨⟨e,he⟩,-⟩
      · obtain ⟨key',hmem,hn⟩ := hkeys
        have hmem : key' ∈ keys := by
          rcases List.mem_cons.mp hmem with rfl | hmem
          · exact absurd hr hn
          · exact hmem
        obtain ⟨e,hrest⟩ := ih ⟨key',hmem,hn⟩
        refine ⟨e,?_⟩
        rw [he]
        cases w.entryAt key with
        | none => exact hrest
        | some entry => simp only [Program.consult_bind_run,hrest]
      · exact ⟨e,by rw [he]⟩
  simp only [Datastore.entries,Program.consult_bind_run,consult_listed]
  refine hgo w.listed ?_
  simpa [Legible] using h

end legible
end StarfieldDatastore
