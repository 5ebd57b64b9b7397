import StarfieldDatastore.Reclaim
import StarfieldDatastore.Interleaving.Pool

/-! Any number of threads on one cache root: in every reachable state each sidecar leads
to the blob it describes and each blob hashes to its name. -/
namespace StarfieldDatastore
open Interleaving

/-- Every sidecar names a blob with its digest and its length; every blob is at its
address. -/
structure Consistent (H : Sha256) (w : World) : Prop where
  sidecar : ∀ key sidecar, w.index.lookup (indexPath key) = some sidecar →
    ∃ entry body, sidecar = .parsed entry ∧ w.blobs.lookup entry.digest = some body ∧
      H.hex body = entry.digest ∧ body.length = entry.bytes
  blob : ∀ digest body, w.blobs.lookup digest = some body → H.hex body = digest

/-- What a step of another thread leaves to thread `t`: its locks, its temporary files,
and all blobs and sidecars while it holds the store lock. -/
structure Frame (t : ThreadId) (w w' : World) : Prop where
  locks : ∀ name, w'.locks name = some t ↔ w.locks name = some t
  store : w.locks Layout.storeLockName = some t → w'.blobs = w.blobs ∧ w'.index = w.index
  tmp : SameTmp t w w'

/-- What thread `t` promises: the frames of the others, and consistency. -/
structure Promise (H : Sha256) (t : ThreadId) (w w' : World) : Prop where
  frame : ∀ u, u ≠ t → Frame u w w'
  consistent : Consistent H w → Consistent H w'

theorem Frame.refl (t : ThreadId) (w : World) : Frame t w w :=
  ⟨fun _ => Iff.rfl,fun _ => ⟨rfl,rfl⟩,.refl t w⟩

theorem Frame.trans {t : ThreadId} {w w' w'' : World} (h : Frame t w w') (h' : Frame t w' w'') :
    Frame t w w'' := by
  refine ⟨fun name => (h'.locks name).trans (h.locks name),fun hs => ?_,h.tmp.trans h'.tmp⟩
  obtain ⟨hb,hi⟩ := h.store hs
  obtain ⟨hb',hi'⟩ := h'.store ((h.locks _).mpr hs)
  exact ⟨hb'.trans hb,hi'.trans hi⟩

section steps
variable {H : Sha256} {t u : ThreadId} {w w' : World}

theorem Frame.of_private (h : PrivateStep t w w') (hu : u ≠ t) : Frame u w w' := by
  refine ⟨fun name => ?_,fun _ => ?_,h.others u hu⟩
  · rw [h.rest]
  · rw [h.rest]
    exact ⟨rfl,rfl⟩

/-- Whoever holds the store lock excludes the others from it. -/
theorem Frame.of_store (hs : w.locks Layout.storeLockName = some t) (hu : u ≠ t)
    (hlocks : w'.locks = w.locks) (htmp : SameTmp u w w') : Frame u w w' := by
  refine ⟨fun name => by rw [hlocks],fun ho => ?_,htmp⟩
  rw [hs] at ho
  exact absurd (Option.some.inj ho).symm hu

theorem Consistent.of_eq (h : Consistent H w) (hb : w'.blobs = w.blobs) (hi : w'.index = w.index) :
    Consistent H w' := by
  refine ⟨fun key sidecar hl => ?_,fun digest body hl => h.blob digest body (hb ▸ hl)⟩
  rw [hb]
  exact h.sidecar key sidecar (hi ▸ hl)

theorem Promise.of_private (h : PrivateStep t w w') : Promise H t w w' :=
  ⟨fun _ hu => .of_private h hu,fun hc => hc.of_eq (by rw [h.rest]) (by rw [h.rest])⟩

theorem Promise.setLock {name : String} {o : Option ThreadId}
    (hold : w.locks name = none ∨ w.locks name = some t) (ho : o = none ∨ o = some t) :
    Promise H t w (w.setLock name o) := by
  refine ⟨fun u hu => ⟨fun other => ?_,fun _ => ⟨rfl,rfl⟩,.of_eq rfl⟩,fun hc => hc.of_eq rfl rfl⟩
  by_cases hn : other = name
  · subst other
    simp only [World.setLock,Function.update_self]
    rcases hold with hold | hold <;> rcases ho with rfl | rfl <;> simp [hold,hu.symm]
  · simp only [World.setLock,Function.update_of_ne hn]

theorem Promise.publishing {tmp : ℕ} {body : Bytes} (hs : w.locks Layout.storeLockName = some t)
    (hl : w.tmp.lookup tmp = some ⟨t,body⟩)
    (hold : ∀ old, w.blobs.lookup (H.hex body) = some old → H.hex old = H.hex body → old = body) :
    Promise H t w
      { w with blobs := w.blobs.insert (H.hex body) body, tmp := w.tmp.erase tmp } := by
  refine ⟨fun u hu => .of_store hs hu rfl (.erase hu ?_ rfl),fun hc => ⟨?_,?_⟩⟩
  · intro old ho
    rw [hl] at ho
    cases ho
    rfl
  · intro key sidecar hk
    obtain ⟨entry,body',rfl,hb,hh,hn⟩ := hc.sidecar key sidecar hk
    refine ⟨entry,body',rfl,?_,hh,hn⟩
    by_cases hd : entry.digest = H.hex body
    · rw [hd] at hb hh ⊢
      rw [hold body' hb hh,AList.lookup_insert]
    · simpa only [AList.lookup_insert_ne hd] using hb
  · intro digest body' hb
    by_cases hd : digest = H.hex body
    · subst hd
      rw [AList.lookup_insert] at hb
      cases hb
      rfl
    · rw [AList.lookup_insert_ne hd] at hb
      exact hc.blob digest body' hb

theorem Promise.indexing {key : ArtifactKey} {entry : IndexEntry} {body : Bytes}
    (hs : w.locks Layout.storeLockName = some t) (hb : w.blobs.lookup entry.digest = some body)
    (hh : H.hex body = entry.digest) (hn : body.length = entry.bytes) :
    Promise H t w { w with index := w.index.insert (indexPath key) (.parsed entry) } := by
  refine ⟨fun u hu => .of_store hs hu rfl (.of_eq rfl),fun hc => ⟨fun key' sidecar hk => ?_,hc.blob⟩⟩
  by_cases hp : indexPath key' = indexPath key
  · rw [hp,AList.lookup_insert] at hk
    cases hk
    exact ⟨entry,body,rfl,hb,hh,hn⟩
  · rw [AList.lookup_insert_ne hp] at hk
    exact hc.sidecar key' sidecar hk

theorem Promise.unindexing {path : String} (hs : w.locks Layout.storeLockName = some t) :
    Promise H t w { w with index := w.index.erase path } := by
  refine ⟨fun u hu => .of_store hs hu rfl (.of_eq rfl),fun hc => ⟨fun key' sidecar hk => ?_,hc.blob⟩⟩
  by_cases hp : indexPath key' = path
  · rw [hp,AList.lookup_erase] at hk
    cases hk
  · rw [AList.lookup_erase_ne hp] at hk
    exact hc.sidecar key' sidecar hk

theorem Promise.unlinking {digest : String} (hs : w.locks Layout.storeLockName = some t)
    (hd : ∀ key entry, w.index.lookup (indexPath key) = some (.parsed entry) →
      entry.digest ≠ digest) :
    Promise H t w { w with blobs := w.blobs.erase digest } := by
  refine ⟨fun u hu => .of_store hs hu rfl (.of_eq rfl),fun hc => ⟨fun key sidecar hk => ?_,?_⟩⟩
  · obtain ⟨entry,body,rfl,hb,hh,hn⟩ := hc.sidecar key sidecar hk
    refine ⟨entry,body,rfl,?_,hh,hn⟩
    rwa [AList.lookup_erase_ne (hd key entry hk)]
  · intro digest' body hb
    by_cases hp : digest' = digest
    · rw [hp,AList.lookup_erase] at hb
      cases hb
    · rw [AList.lookup_erase_ne hp] at hb
      exact hc.blob digest' body hb

/-- The locks of a thread that is killed are released, and nothing else happens. -/
theorem Frame.release (hu : u ≠ t) : Frame u w (w.release t) := by
  refine ⟨fun name => ?_,fun _ => ⟨rfl,rfl⟩,.of_eq rfl⟩
  simp only [World.release]
  split
  · rename_i ho
    simp [ho,hu.symm]
  · rfl

end steps

/-- The operations that threads run on a cache root. -/
inductive Operation
  | get (ds : Datastore) (artifact : Artifact)
  | getLimited (ds : Datastore) (artifact : Artifact) (bytes : ℕ)
  | importFile (artifact : Artifact) (path : String)
  | remove (ds : Datastore) (key : ArtifactKey)
  | gc (ds : Datastore) (maxBytes : ℕ)

def Operation.run (H : Sha256) (U : UrlCrate) : Operation → Prog Unit
  | .get ds artifact => (ds.get H U artifact).run >>= fun _ => .done ()
  | .getLimited ds artifact bytes => (ds.getLimited H U artifact bytes).run >>= fun _ => .done ()
  | .importFile artifact path => (Datastore.importFile H artifact path).run >>= fun _ => .done ()
  | .remove ds key => (ds.remove H key).run >>= fun _ => .done ()
  | .gc ds maxBytes => (ds.gc H maxBytes).run >>= fun _ => .done ()

def runAll (H : Sha256) (U : UrlCrate) : List Operation → Prog Unit
  | [] => .done ()
  | op :: ops => op.run H U >>= fun _ => runAll H U ops

/-- Threads that share one cache root. Each runs a sequence of operations, any step can
fail, and a thread can be killed between any two steps. -/
def sharedRoot (H : Sha256) (U : UrlCrate) : System ThreadId Call Call.Ret World Unit where
  step t c w r w' := c.Does t w r w' ∧ NoCollision H w'
  launch _ _ p := ∃ ops, p = runAll H U ops
  kill t w w' := w' = w.release t

section discipline
variable {H : Sha256} {U : UrlCrate} {t : ThreadId} {w : World}

/-- One thread of the shared root. -/
def sharedSetting (H : Sha256) (t : ThreadId) : Setting Call Call.Ret World where
  step c w r w' := Consistent H w ∧ c.Does t w r w' ∧ NoCollision H w'
  rely := Frame t
  guar := Promise H t
  rely_refl := .refl t
  rely_trans := .trans

theorem guarded_sharedSetting : Guarded H False t (sharedSetting H t) where
  does h := h.2.1
  rely h := h.tmp
  guar := .of_private
  drops h := h.elim
  store h hs := ⟨(h.locks _).mpr hs,h.store hs⟩
  locking hn := .setLock (.inl hn) (.inr rfl)
  unlocking ho := .setLock (.inr ho) (.inl rfl)
  publishing hs hl hold := .publishing hs hl (hold fun h => h.2.2)
  indexing hs hb hh hn := .indexing hs hb hh (hn fun h => h.2.2)
  unindexing := .unindexing
  unlinking := .unlinking

theorem operation_holds (op : Operation) :
    (op.run H U).Holds (sharedSetting H t) (fun _ _ => True) w := by
  have hE := guarded_sharedSetting (H := H) (t := t)
  have hw : Empty False t w := fun h => h.elim
  cases op with
  | get ds artifact =>
    exact Program.Holds.bind ((get_holds hE hw).mono fun _ _ _ _ _ => trivial)
  | getLimited ds artifact bytes =>
    exact Program.Holds.bind ((getLimited_holds hE bytes hw).mono fun _ _ _ _ _ => trivial)
  | importFile artifact path =>
    exact Program.Holds.bind ((importFile_holds hE path hw).mono fun _ _ _ _ _ => trivial)
  | remove ds key =>
    exact Program.Holds.bind ((remove_holds hE key hw).mono fun _ _ _ _ _ => trivial)
  | gc ds maxBytes =>
    exact Program.Holds.bind ((gc_holds hE maxBytes hw).mono fun _ _ _ _ _ => trivial)

theorem runAll_holds (ops : List Operation) :
    ∀ {w : World}, (runAll H U ops).Holds (sharedSetting H t) (fun _ _ => True) w := by
  induction ops with
  | nil => exact fun _ _ => trivial
  | cons op ops ih => exact Program.Holds.bind ((operation_holds op).mono fun _ _ _ => ih)

/-- Every thread of the shared root works within its promise. -/
def sharedDiscipline (H : Sha256) (U : UrlCrate) : (sharedRoot H U).Discipline where
  inv := Consistent H
  rely := Frame
  guar := Promise H
  pre _ _ := True
  post _ _ _ _ := True
  rely_refl := Frame.refl
  rely_trans _ := .trans
  guar_inv h := h.consistent
  guar_rely hu _ h := h.frame _ hu.symm
  kill_inv h hc := by
    subst h
    exact hc.of_eq rfl rfl
  kill_rely hu _ h := by
    subst h
    exact .release hu.symm
  pre_stable _ _ := trivial
  launch_holds h _ := by
    obtain ⟨ops,rfl⟩ := h
    exact runAll_holds ops

theorem consistent_of_reaches {c : Config ThreadId Call Call.Ret World Unit}
    (hw : Consistent H w) (hr : (sharedRoot H U).Reaches (System.init w) c) : Consistent H c.state :=
  ((sharedDiscipline H U).sound_of_reaches ((sharedDiscipline H U).sound_init hw fun _ => trivial)
    hr).inv

theorem consistent_cached : Consistent .sample .cached := by
  refine ⟨fun key sidecar h => ?_,fun digest body h => ?_⟩
  · by_cases hk : indexPath key = "abc.json"
    · rw [hk,World.cached,AList.lookup_insert] at h
      cases h
      exact ⟨_,[0x61,0x62,0x63],rfl,by rw [World.cached,AList.lookup_insert],rfl,rfl⟩
    · rw [World.cached,AList.lookup_insert_ne hk] at h
      cases h
  · by_cases hd : digest = Sha256.sample.hex [0x61,0x62,0x63]
    · rw [World.cached,hd,AList.lookup_insert] at h
      rw [hd,← Option.some.inj h]
    · rw [World.cached,AList.lookup_insert_ne hd] at h
      cases h

/-- A collection that is killed under the store lock. -/
theorem consistent_of_reaches_killed :
    ∃ c, (sharedRoot .sample (twoHosts "a.com" "b.org")).Reaches (System.init .cached) c ∧
      c.thread 0 = .killed ∧ Consistent .sample c.state := by
  let ds : Datastore := ⟨⟨"/cache"⟩,none,⟨none⟩,true,false,none⟩
  have hr : ∃ c, (sharedRoot .sample (twoHosts "a.com" "b.org")).Reaches (System.init .cached) c ∧
      c.thread 0 = .killed := by
    exact ⟨_,.tail (.tail (.tail .refl (.launch (t := 0) rfl ⟨[.gc ds 0],rfl⟩))
      (.call (t := 0) rfl ⟨.inl ⟨(),rfl⟩,noCollision_cached _⟩)) (.kill (t := 0) rfl rfl),rfl⟩
  obtain ⟨c,hr,hk⟩ := hr
  exact ⟨c,hr,hk,consistent_of_reaches consistent_cached hr⟩

end discipline
end StarfieldDatastore
