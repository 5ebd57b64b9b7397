import StarfieldDatastore.Integrity
import StarfieldDatastore.Interleaving.Replay

/-! `remove` in a store whose filesystem works: what it leaves of index and blobs when it
reports an error. -/
namespace StarfieldDatastore
open Interleaving

theorem keyLockName_ne (H : Sha256) (key : ArtifactKey) :
    Layout.keyLockName H key ≠ Layout.storeLockName := by
  intro h
  have hdigest := (isDigest_chars (H.shape (utf8Bytes key.text))).1
  have hlen := congrArg (fun s => s.toList.length) h
  simp only [Layout.keyLockName,String.toList_append,List.length_append,hdigest] at hlen
  exact absurd hlen (by decide)

namespace World

/-- The same with the locks that a removal holds. -/
def held (w : World) (H : Sha256) (t : ThreadId) (key : ArtifactKey) : World :=
  (w.setLock (Layout.keyLockName H key) (some t)).setLock Layout.storeLockName (some t)

/-- The cache without the sidecar of a key. -/
def without (w : World) (key : ArtifactKey) : World := { w with index := w.index.erase (indexPath key) }

/-- The cache without the sidecar of a key and without a blob. -/
def withoutBoth (w : World) (key : ArtifactKey) (digest : String) : World :=
  { w.without key with blobs := w.blobs.erase digest }

/-- The blob that only the sidecar of `key` names. -/
def Sole (w : World) (key : ArtifactKey) (digest : String) : Prop :=
  (∃ entry, w.entryAt key = some entry ∧ entry.digest = digest) ∧
    ∀ other ≠ key, ∀ entry, w.entryAt other = some entry → entry.digest ≠ digest

end World

/-- What a removal does when it succeeds. -/
structure Dropped (key : ArtifactKey) (w w' : World) : Prop where
  gone : w'.index.lookup (indexPath key) = none
  others : ∀ path ≠ indexPath key, w'.index.lookup path = w.index.lookup path
  freed : ∀ digest, w.Sole key digest → w'.blobs.lookup digest = none
  kept : ∀ digest, ¬ w.Sole key digest → w'.blobs.lookup digest = w.blobs.lookup digest

section removal
variable {H : Sha256} {t : ThreadId} {w : World} {key : ArtifactKey} {entry : IndexEntry} {ds : Datastore}

theorem entryAt_without_ne {other : ArtifactKey} (h : other ≠ key) :
    (w.without key).entryAt other = w.entryAt other := by
  simp only [World.entryAt,World.without]
  rw [AList.lookup_erase_ne fun he => h (indexPath_injective he)]

theorem entryAt_without_self : (w.without key).entryAt key = none := by
  simp only [World.entryAt,World.without,AList.lookup_erase]

theorem digestReferenced_looks (ds : Datastore) (digest : String) :
    (ds.digestReferenced digest).run.Only fun c => c.looks = true :=
  Program.Only.bind_run (entries_looks ds) fun _ => trivial

/-- The reference scan after the removal answers whether another key names the blob. -/
theorem digestReferenced_consult (ds : Datastore) (h : Legible (w.without key)) (hkey : w.entryAt key = some entry) :
    ∃ referenced, (ds.digestReferenced entry.digest).run.consult (w.without key).answer = .ok referenced ∧
      (referenced = false ↔ w.Sole key entry.digest) := by
  refine ⟨(w.without key).catalogue.any fun e => e.2.digest = entry.digest,?_,?_⟩
  · simp only [Datastore.digestReferenced,Program.consult_bind_run,entries_consult h]
    rfl
  · rw [List.any_eq_false]
    constructor
    · intro hnone
      refine ⟨⟨entry,hkey,rfl⟩,fun other hne found hfound hd => ?_⟩
      rw [← entryAt_without_ne hne] at hfound
      exact hnone _ (mem_catalogue.mpr hfound) (decide_eq_true hd)
    · rintro ⟨-,hnone⟩ ⟨other,found⟩ hmem
      rw [mem_catalogue] at hmem
      by_cases hne : other = key
      · subst hne
        rw [entryAt_without_self] at hmem
        cases hmem
      · rw [entryAt_without_ne hne] at hmem
        simpa using hnone other hne found hmem

/-- How a removal ends. -/
inductive RemoveEnds (key : ArtifactKey) (w : World) : Except DatastoreError Unit → World → Prop
  | absent (h : w.index.lookup (indexPath key) = none) : RemoveEnds key w (.ok ()) w
  | unreadable (e) (h : ¬ w.Readable key) : RemoveEnds key w (.error e) w
  | half (e) {entry} (hkey : w.entryAt key = some entry) (hdigest : isDigest entry.digest = true)
      (h : ¬ Legible (w.without key)) : RemoveEnds key w (.error e) (w.without key)
  | dropped {w'} (h : Legible (w.without key)) (hw : Dropped key w w') : RemoveEnds key w (.ok ()) w'

/-- The removal from the cache and of the blob if it is no longer named. -/
theorem dropped_of_sole (referenced : Bool) (hkey : w.entryAt key = some entry)
    (href : referenced = false ↔ w.Sole key entry.digest) :
    Dropped key w (if referenced then w.without key else w.withoutBoth key entry.digest) := by
  have hdigest : ∀ digest, w.Sole key digest → digest = entry.digest := by
    rintro digest ⟨⟨found,hfound,rfl⟩,-⟩
    cases hkey.symm.trans hfound
    rfl
  have hindex : ∀ path ≠ indexPath key, (w.without key).index.lookup path = w.index.lookup path :=
    fun path hp => AList.lookup_erase_ne hp
  cases referenced with
  | true =>
    have hnot : ∀ digest, ¬ w.Sole key digest := by
      intro digest hs
      obtain rfl := hdigest digest hs
      cases href.mpr hs
    exact ⟨AList.lookup_erase _ _,hindex,fun digest hs => absurd hs (hnot digest),fun _ _ => rfl⟩
  | false =>
    refine ⟨AList.lookup_erase _ _,hindex,fun digest hs => ?_,fun digest hs => ?_⟩
    · obtain rfl := hdigest digest hs
      exact AList.lookup_erase _ _
    · refine AList.lookup_erase_ne fun he => hs ?_
      rw [he]
      exact href.mp rfl

theorem held_unlocked (hkey : w.locks (Layout.keyLockName H key) = none)
    (hstore : w.locks Layout.storeLockName = none) :
    ((w.held H t key).setLock Layout.storeLockName none).setLock (Layout.keyLockName H key) none = w := by
  rw [World.held,setLock_free (w := w.setLock (Layout.keyLockName H key) (some t)),setLock_free hkey]
  exact (Function.update_of_ne (keyLockName_ne H key).symm _ _).trans hstore

theorem answer_held : (w.held H t key).answer = w.answer := by
  rw [World.held,answer_setLock,answer_setLock]

/-- An operation under the lock of a key and the store lock, both of which are free. -/
theorem bothLocks_total {α : Type} {body : Op α} {Q : Except DatastoreError α → World → Prop}
    (hkey : w.locks (Layout.keyLockName H key) = none) (hstore : w.locks Layout.storeLockName = none)
    (h : body.run.Total (Call.Works t) (fun out u => ∃ v, u = v.held H t key ∧ v.locks = w.locks ∧ Q out v)
      (w.held H t key)) :
    (Layout.lock H key (Layout.storeLock body)).run.Total (Call.Works t) Q w := by
  refine withLock_total hkey (withLock_total ?_ (h.mono ?_))
  · exact (Function.update_of_ne (keyLockName_ne H key).symm _ _).trans hstore
  · rintro out u ⟨v,rfl,hlocks,hQ⟩
    refine ⟨?_,?_,?_⟩
    · simp only [World.held,World.setLock,Function.update_self]
    · simp only [World.held,World.setLock,Function.update_idem]
      rw [Function.update_of_ne (keyLockName_ne H key),Function.update_self]
    · rwa [held_unlocked (by rw [hlocks,hkey]) (by rw [hlocks,hstore])]

theorem removeBlob_total {digest : String} {Q : Except DatastoreError Unit → World → Prop}
    (h : Q (.ok ()) { w with blobs := w.blobs.erase digest }) :
    (Layout.removeBlob digest).run.Total (Call.Works t) Q w := by
  refine ⟨⟨_,_,(),rfl⟩,fun r u hu => ?_⟩
  obtain ⟨x,hx⟩ := hu
  cases hx
  exact h

/-- A sidecar is unlinked and the others are scanned for its digest. -/
theorem unlink_total {α : Type} {rest : Bool → Op α} {Q : Except DatastoreError α → World → Prop}
    (hentry : w.entryAt key = some entry)
    (hlegible : Legible (w.without key) → ∀ referenced, (referenced = false ↔ w.Sole key entry.digest) →
      (rest referenced).run.Total (Call.Works t) Q ((w.without key).held H t key))
    (hillegible : ¬ Legible (w.without key) → ∀ e, Q (.error e) ((w.without key).held H t key)) :
    (Layout.removeEntry key >>= fun _ => ds.digestReferenced entry.digest >>= rest).run.Total
      (Call.Works t) Q (w.held H t key) := by
  have hunlink : ∀ x, (w.held H t key).runFs t (.unlinkSidecar (indexPath key)) x =
      some (.ok true,(w.without key).held H t key) := by
    intro x
    simp only [World.runFs,World.held,World.setLock,entryAt_eq.mp hentry]
    rfl
  refine total_works_io (.ok true) hunlink ?_
  refine Program.Total.bind_run ((total_looks (digestReferenced_looks ds entry.digest)).mono ?_)
  rintro out u ⟨rfl,rfl⟩
  rw [answer_held]
  by_cases h : Legible (w.without key)
  · obtain ⟨referenced,hconsult,href⟩ := digestReferenced_consult ds h hentry
    rw [hconsult]
    exact hlegible h referenced href
  · obtain ⟨e,he⟩ := entries_illegible h ds
    have hconsult : (ds.digestReferenced entry.digest).run.consult (w.without key).answer = .error e := by
      simp only [Datastore.digestReferenced,Program.consult_bind_run,he]
    rw [hconsult]
    exact hillegible h e

theorem remove_total (hkey : w.locks (Layout.keyLockName H key) = none)
    (hstore : w.locks Layout.storeLockName = none) :
    (ds.remove H key).run.Total (Call.Works t) (fun out w' => RemoveEnds key w out w' ∧ w'.locks = w.locks) w := by
  refine bothLocks_total hkey hstore (Program.Total.bind_run
    ((total_looks (readEntry_looks ds.layout key)).mono ?_))
  rintro out u ⟨rfl,rfl⟩
  rw [answer_held]
  rcases readEntry_consult ds.layout w key with ⟨he,hr⟩ | ⟨⟨e,he⟩,hr⟩
  · rw [he]
    cases hentry : w.entryAt key with
    | none =>
      obtain ⟨found,hl,hfound⟩ := readable_look hr
      have hl := look_readSidecar hl
      have hnone : found = none := by
        cases found with
        | none => rfl
        | some sidecar =>
          cases sidecar with
          | parsed entry => rw [entryAt_eq.mpr hl] at hentry; cases hentry
          | malformed detail => exact absurd rfl (hfound detail)
      exact ⟨w,rfl,rfl,.absent (hl.trans hnone),rfl⟩
    | some entry =>
      refine unlink_total hentry (fun hlegible referenced href => ?_) fun hillegible e =>
        ⟨w.without key,rfl,rfl,.half e hentry (Readable.digest hr hentry) hillegible,rfl⟩
      have hdropped := dropped_of_sole referenced hentry href
      cases referenced with
      | true => exact ⟨w.without key,rfl,rfl,.dropped hlegible hdropped,rfl⟩
      | false =>
        exact removeBlob_total ⟨w.withoutBoth key entry.digest,rfl,rfl,.dropped hlegible hdropped,rfl⟩
  · rw [he]
    exact ⟨w,rfl,rfl,.unreadable e hr,rfl⟩

/-- The scan that follows the removal of a sidecar can meet one that cannot be read. -/
theorem remove_half (t : ThreadId) (ds : Datastore) (hkey : w.locks (Layout.keyLockName H key) = none)
    (hstore : w.locks Layout.storeLockName = none) (hentry : w.entryAt key = some entry)
    (hdigest : isDigest entry.digest = true) (hscan : ¬ Legible (w.without key)) :
    (ds.remove H key).run.Total (Call.Works t) (fun out w' => (∃ e, out = .error e) ∧
      w'.index.lookup (indexPath key) = none) w := by
  refine (remove_total hkey hstore).mono ?_
  rintro out w' ⟨hends,-⟩
  cases hends with
  | absent hnone => rw [entryAt_eq,hnone] at hentry; cases hentry
  | unreadable e hn =>
    refine absurd ?_ hn
    simp only [World.Readable,World.look,entryAt_eq.mp hentry]
    exact hdigest
  | half e hsome _ hn => exact ⟨⟨e,rfl⟩,AList.lookup_erase _ _⟩
  | dropped h hw => exact absurd h hscan

/-- `remove` is atomic, that is it succeeds and has dropped the sidecar and what only it
named or it fails and has changed nothing, exactly when the sidecars that are left can all
be read: it unlinks first and scans afterwards. -/
theorem remove_atomic_iff (hkey : w.locks (Layout.keyLockName H key) = none)
    (hstore : w.locks Layout.storeLockName = none) :
    (ds.remove H key).run.Total (Call.Works t) (fun out w' => out = .ok () ∧ Dropped key w w' ∨
        (∃ e, out = .error e) ∧ w'.index = w.index ∧ w'.blobs = w.blobs) w ↔
      ((∃ entry, w.entryAt key = some entry ∧ isDigest entry.digest = true) → Legible (w.without key)) := by
  constructor
  · rintro h ⟨entry,hentry,hdigest⟩
    by_contra hscan
    have hhalf := remove_half t ds hkey hstore hentry hdigest hscan
    obtain ⟨events,out,w',hr⟩ := hhalf.exists_runs
    obtain ⟨⟨e,rfl⟩,hgone⟩ := hhalf.of_runs hr
    rcases h.of_runs hr with ⟨hok,-⟩ | ⟨-,hindex,-⟩
    · cases hok
    · rw [hindex,entryAt_eq.mp hentry] at hgone
      cases hgone
  · intro hcond
    refine (remove_total hkey hstore).mono ?_
    rintro out w' ⟨hends,-⟩
    cases hends with
    | absent hnone =>
      have hsole : ∀ digest, ¬ w.Sole key digest := by
        rintro digest ⟨⟨entry,hentry,-⟩,-⟩
        rw [entryAt_eq,hnone] at hentry
        cases hentry
      exact .inl ⟨rfl,hnone,fun _ _ => rfl,fun digest hs => absurd hs (hsole digest),fun _ _ => rfl⟩
    | unreadable e hr => exact .inr ⟨⟨e,rfl⟩,rfl,rfl⟩
    | half e hsome hdigest hn => exact absurd (hcond ⟨_,hsome,hdigest⟩) hn
    | dropped h hw => exact .inl ⟨rfl,hw⟩

end removal

/-- A sidecar is removed, and its blob stays for another one that names it. -/
theorem remove_atomic_iff_shared : ∃ events w',
    (Datastore.alone.remove .sample Artifact.sample.key).run.Runs (Call.Works 0) .shared events (.ok ()) w' ∧
    Dropped Artifact.sample.key .shared w' ∧ w'.blobs.lookup (Sha256.sample.hex [0x61,0x62,0x63]) ≠ none := by
  have hreplays : (Datastore.alone.remove .sample Artifact.sample.key).run.replays (World.serve []) 50 .shared
      (fun out w' => out.isOk && (w'.blobs.lookup (Sha256.sample.hex [0x61,0x62,0x63])).isSome) = true := by
    decide +kernel
  obtain ⟨events,out,w',hruns,hcheck⟩ := Program.runs_of_replays (serve_works []) hreplays
  obtain ⟨hok,hblob⟩ := Bool.and_eq_true_iff.mp hcheck
  have hlegible : Legible (World.shared.without Artifact.sample.key) := legible_of_entries (by decide +kernel)
  have hatomic : (Datastore.alone.remove .sample Artifact.sample.key).run.Total (Call.Works 0) _ .shared :=
    (remove_atomic_iff rfl rfl).mpr fun _ => hlegible
  rcases hatomic.of_runs hruns with ⟨rfl,hdropped⟩ | ⟨⟨e,rfl⟩,-⟩
  · exact ⟨events,w',hruns,hdropped,fun hnone => by simp [hnone] at hblob⟩
  · cases hok

/-- The sample cache with a second sidecar, which does not parse. -/
def World.spoilt : World :=
  { World.cached with
    index := World.cached.index.insert "bad.json" (.malformed "EOF while parsing a value") }

/-- `remove` fails there, and the sidecar that it was asked to remove is gone. -/
theorem remove_spoilt : World.spoilt.index.lookup (indexPath Artifact.sample.key) ≠ none ∧
    (Datastore.alone.remove .sample Artifact.sample.key).run.Total (Call.Works 0) (fun out w' =>
      (∃ e, out = .error e) ∧ w'.index.lookup (indexPath Artifact.sample.key) = none) .spoilt := by
  have hvalid : validKey "bad" = true := by decide
  have hentry : World.spoilt.entryAt Artifact.sample.key =
      some ⟨Sha256.sample.hex [0x61,0x62,0x63],3,0,none,none,none,.localDisk⟩ := rfl
  refine ⟨fun h => ?_,remove_half _ _ rfl rfl hentry rfl fun hlegible => ?_⟩
  · rw [entryAt_eq,h] at hentry
    cases hentry
  · exact hlegible ⟨"bad",hvalid⟩ (mem_listed.mpr ⟨"bad.json",by decide,keyOfPath_indexPath ⟨"bad",hvalid⟩⟩)

end StarfieldDatastore
