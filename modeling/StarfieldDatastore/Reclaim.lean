import StarfieldDatastore.Resolve

/-! Removal and collection in any guarded setting. A blob is unlinked only under the store
lock and only when no sidecar names it. -/
namespace StarfieldDatastore
open Interleaving

theorem keyOfPath_indexPath (key : ArtifactKey) : keyOfPath (indexPath key) = some key := by
  have hvalid := key.valid
  simp only [validKey,Bool.and_eq_true,List.all_eq_true] at hvalid
  have hmap : (key.text.map fun c => if c = '\\' then '/' else c) = key.text := by
    apply String.toList_inj.mp
    rw [String.toList_map]
    refine (List.map_congr_left fun c hc => ?_).trans (List.map_id _)
    have hsafe := hvalid.2 c hc
    split
    · rename_i he
      subst he
      simp at hsafe
    · rfl
  have hsuffix : ".json".toList.isSuffixOf (key.text.toList++".json".toList) = true := by simp
  simp only [keyOfPath,indexPath,String.toList_append,hsuffix,if_true]
  rw [List.length_append,Nat.add_sub_cancel,List.take_left,String.ofList_toList,hmap,
    ArtifactKey.new_text]

/-- The list has every key that has a sidecar, and every such sidecar can be read. -/
def Complete (index : AList fun _ : String => Sidecar) (entries : List (ArtifactKey × IndexEntry)) :
    Prop :=
  ∀ key sidecar, index.lookup (indexPath key) = some sidecar →
    ∃ entry, sidecar = .parsed entry ∧ (key,entry) ∈ entries

/-- Under the store lock, tidy. -/
structure Inside (tidy : Prop) (t : ThreadId) (blobs : AList fun _ : String => Bytes)
    (index : AList fun _ : String => Sidecar) (w : World) : Prop where
  empty : Empty tidy t w
  locked : Locked t blobs index w

section reclaim
variable {H : Sha256} {ds : Datastore} {tidy : Prop} {t : ThreadId}
  {E : Setting Call Call.Ret World} {w w' : World}
  {blobs : AList fun _ : String => Bytes} {index : AList fun _ : String => Sidecar}

theorem Inside.stable (hE : Guarded H tidy t E) (hw : E.rely w w')
    (h : Inside tidy t blobs index w) : Inside tidy t blobs index w' :=
  ⟨h.empty.stable (hE.rely hw),h.locked.stable hE hw⟩

/-- Under the store lock a sidecar is read as it is. -/
theorem readEntry_holds (hE : Guarded H tidy t E) (layout : Layout) (key : ArtifactKey)
    (hw : Inside tidy t blobs index w) :
    (layout.readEntry key).run.Holds E (fun out w' => Inside tidy t blobs index w' ∧
      ∀ found, out = .ok found → index.lookup (indexPath key) = found.map .parsed) w := by
  refine holds_io_bind fun u hu r u' hstep => ?_
  have hread := fun out (h : r = .ok out) => (hE.does (h ▸ hstep)).readSidecar
  obtain ⟨hg,rfl⟩ := hE.readOnly rfl hstep
  replace hu := hw.stable hE hu
  refine ⟨hg,?_⟩
  match r with
  | .error e => exact fun v hv => ⟨hu.stable hE hv,by simp⟩
  | .ok none =>
    refine fun v hv => ⟨hu.stable hE hv,fun found hf => ?_⟩
    cases hf
    rw [← hu.locked.index]
    exact (hread none rfl).symm
  | .ok (some (.malformed detail)) => exact fun v hv => ⟨hu.stable hE hv,by simp⟩
  | .ok (some (.parsed entry)) =>
    simp only
    split
    · refine fun v hv => ⟨hu.stable hE hv,fun found hf => ?_⟩
      cases hf
      rw [← hu.locked.index]
      exact (hread _ rfl).symm
    · exact fun v hv => ⟨hu.stable hE hv,by simp⟩

theorem entries_go_holds (hE : Guarded H tidy t E) (keys : List ArtifactKey) :
    ∀ {w : World}, Inside tidy t blobs index w →
      (Datastore.entries.go ds keys).run.Holds E (fun out w' => Inside tidy t blobs index w' ∧
        ∀ entries, out = .ok entries → ∀ key ∈ keys, ∀ sidecar,
          index.lookup (indexPath key) = some sidecar →
          ∃ entry, sidecar = .parsed entry ∧ (key,entry) ∈ entries) w := by
  induction keys with
  | nil => exact fun hw u hu => ⟨hw.stable hE hu,fun _ _ key hk => by cases hk⟩
  | cons key keys ih =>
    intro w hw
    refine Program.Holds.bind_run ((readEntry_holds hE ds.layout key hw).mono ?_)
    rintro out u ⟨hu,hfound⟩
    match out with
    | .error e => exact ⟨hu,by simp⟩
    | .ok none =>
      refine (ih hu).mono fun out v hv => ⟨hv.1,fun entries he key' hk sidecar hs => ?_⟩
      rcases List.mem_cons.mp hk with rfl | hk
      · rw [hfound none rfl] at hs
        cases hs
      · exact hv.2 entries he key' hk sidecar hs
    | .ok (some entry) =>
      refine Program.Holds.bind_run ((ih hu).mono fun out v hv => ?_)
      cases out with
      | error e => exact ⟨hv.1,by simp⟩
      | ok rest =>
        refine fun x hx => ⟨hv.1.stable hE hx,fun entries he key' hk sidecar hs => ?_⟩
        cases he
        rcases List.mem_cons.mp hk with rfl | hk
        · rw [hfound (some entry) rfl] at hs
          cases hs
          exact ⟨entry,rfl,List.mem_cons_self⟩
        · obtain ⟨e,rfl,hmem⟩ := hv.2 rest rfl key' hk sidecar hs
          exact ⟨e,rfl,List.mem_cons_of_mem _ hmem⟩

/-- Under the store lock a scan that succeeds sees every sidecar. -/
theorem entries_holds (hE : Guarded H tidy t E) (hw : Inside tidy t blobs index w) :
    ds.entries.run.Holds E (fun out w' => Inside tidy t blobs index w' ∧
      ∀ entries, out = .ok entries → Complete index entries) w := by
  refine Program.Holds.bind_run (holds_io_bind fun u hu r u' hstep => ?_)
  have hlist := fun out (h : r = .ok out) => (hE.does (h ▸ hstep)).listIndex
  obtain ⟨hg,rfl⟩ := hE.readOnly rfl hstep
  replace hu := hw.stable hE hu
  refine ⟨hg,?_⟩
  cases r with
  | error e => exact fun v hv => ⟨hu.stable hE hv,by simp⟩
  | ok paths =>
    intro v hv
    refine (entries_go_holds hE _ (hu.stable hE hv)).mono fun out x hx =>
      ⟨hx.1,fun entries he key sidecar hs => hx.2 entries he key ?_ sidecar hs⟩
    refine (List.perm_insertionSort _ _).mem_iff.mpr (List.mem_filterMap.mpr
      ⟨indexPath key,?_,keyOfPath_indexPath key⟩)
    rw [hlist paths rfl,hu.locked.index]
    exact AList.mem_keys.mp (AList.lookup_isSome.mp (by rw [hs]; rfl))

theorem Complete.unreferenced {entries : List (ArtifactKey × IndexEntry)} {digest : String}
    (h : Complete index entries) (hd : (entries.any fun e => e.2.digest = digest) = false) :
    ∀ key entry, index.lookup (indexPath key) = some (.parsed entry) → entry.digest ≠ digest := by
  intro key entry hl he
  obtain ⟨entry',hs,hmem⟩ := h key _ hl
  cases hs
  have := List.any_eq_false.mp hd _ hmem
  simp [he] at this

theorem digestReferenced_holds (hE : Guarded H tidy t E) (digest : String)
    (hw : Inside tidy t blobs index w) :
    (ds.digestReferenced digest).run.Holds E (fun out w' => Inside tidy t blobs index w' ∧
      (out = .ok false → ∀ key entry, index.lookup (indexPath key) = some (.parsed entry) →
        entry.digest ≠ digest)) w := by
  refine Program.Holds.bind_run ((entries_holds hE hw).mono ?_)
  rintro out u ⟨hu,hcomplete⟩
  cases out with
  | error e => exact ⟨hu,by simp⟩
  | ok entries =>
    refine fun v hv => ⟨hu.stable hE hv,fun hd => (hcomplete entries rfl).unreferenced ?_⟩
    simpa using hd

theorem removeBlob_holds (hE : Guarded H tidy t E) {digest : String}
    (hd : ∀ key entry, index.lookup (indexPath key) = some (.parsed entry) → entry.digest ≠ digest)
    (hw : Inside tidy t blobs index w) :
    (Layout.removeBlob digest).run.Holds E (fun _ w' => ∃ blobs, Inside tidy t blobs index w') w := by
  refine holds_io fun u hu r u' hstep => ?_
  replace hu := hw.stable hE hu
  rcases (hE.does hstep).unlinkBlob with rfl | rfl
  · exact ⟨hE.guar (.refl t _),fun v hv => ⟨_,hu.stable hE hv⟩⟩
  · refine ⟨hE.unlinking hu.locked.store (hu.locked.index ▸ hd),fun v hv => ?_⟩
    exact ⟨_,Inside.stable hE hv ⟨hu.empty,hu.locked.store,rfl,hu.locked.index⟩⟩

theorem removeEntry_holds (hE : Guarded H tidy t E) (key : ArtifactKey)
    (hw : Inside tidy t blobs index w) :
    (Layout.removeEntry key).run.Holds E (fun _ w' => ∃ index, Inside tidy t blobs index w') w := by
  refine holds_io fun u hu r u' hstep => ?_
  replace hu := hw.stable hE hu
  rcases (hE.does hstep).unlinkSidecar with ⟨rfl,_⟩ | rfl
  · exact ⟨hE.guar (.refl t _),fun v hv => ⟨_,hu.stable hE hv⟩⟩
  · refine ⟨hE.unindexing hu.locked.store,fun v hv => ?_⟩
    exact ⟨_,Inside.stable hE hv ⟨hu.empty,hu.locked.store,hu.locked.blobs,rfl⟩⟩

/-- An operation that runs under the store lock and leaves no temporary file. -/
theorem storeLock_holds (hE : Guarded H tidy t E) {α : Type} {body : Op α}
    (hbody : ∀ s blobs index, Inside tidy t blobs index s →
      body.run.Holds E (fun _ w' => Empty tidy t w') s) (hw : Empty tidy t w) :
    (Layout.storeLock body).run.Holds E (fun _ w' => Empty tidy t w') w :=
  withLock_holds hE (fun _ _ hr hs => hs.stable (hE.rely hr)) (fun _ _ _ hs => hs.setLock)
    (fun _ _ _ hr hs => hs.stable (hE.rely hr)) (fun _ _ _ _ hs => hs.setLock)
    (fun _ _ hs => hs) (fun s hs ho => hbody s _ _ ⟨hs,ho,rfl,rfl⟩) hw

theorem lock_holds (hE : Guarded H tidy t E) {α : Type} {key : ArtifactKey} {body : Op α}
    (hbody : ∀ s, Empty tidy t s → body.run.Holds E (fun _ w' => Empty tidy t w') s)
    (hw : Empty tidy t w) :
    (Layout.lock H key body).run.Holds E (fun _ w' => Empty tidy t w') w :=
  withLock_holds hE (fun _ _ hr hs => hs.stable (hE.rely hr)) (fun _ _ _ hs => hs.setLock)
    (fun _ _ _ hr hs => hs.stable (hE.rely hr)) (fun _ _ _ _ hs => hs.setLock)
    (fun _ _ hs => hs) (fun s hs _ => hbody s hs) hw

theorem remove_holds (hE : Guarded H tidy t E) (key : ArtifactKey) (hw : Empty tidy t w) :
    (ds.remove H key).run.Holds E (fun _ w' => Empty tidy t w') w := by
  refine lock_holds hE (fun s hs => ?_) hw
  refine storeLock_holds hE (fun s blobs index hs => ?_) hs
  refine Program.Holds.bind_run ((readEntry_holds hE ds.layout key hs).mono ?_)
  rintro out u ⟨hu,-⟩
  match out with
  | .error e => exact hu.empty
  | .ok none => exact fun v hv => (hu.stable hE hv).empty
  | .ok (some entry) =>
    refine Program.Holds.bind_run ((removeEntry_holds hE key hu).mono ?_)
    rintro out v ⟨index,hv⟩
    cases out with
    | error e => exact hv.empty
    | ok found =>
      refine Program.Holds.bind_run ((digestReferenced_holds hE _ hv).mono ?_)
      rintro out x ⟨hx,hd⟩
      match out with
      | .error e => exact hx.empty
      | .ok true => exact fun y hy => (hx.stable hE hy).empty
      | .ok false =>
        refine (removeBlob_holds hE (hd rfl) hx).mono ?_
        rintro out y ⟨blobs,hy⟩
        exact hy.empty

theorem sweepOrphans_holds (hE : Guarded H tidy t E) {entries : List (ArtifactKey × IndexEntry)}
    (hcomplete : Complete index entries) (found : List (String × ℕ)) :
    ∀ {w : World} {blobs}, Inside tidy t blobs index w →
      (Datastore.sweepOrphans entries found).run.Holds E (fun _ w' => Empty tidy t w') w := by
  induction found with
  | nil => exact fun hw u hu => (hw.stable hE hu).empty
  | cons e rest ih =>
    intro w blobs hw
    obtain ⟨digest,len⟩ := e
    unfold Datastore.sweepOrphans
    split
    · refine Program.Holds.bind_run ((ih hw).mono fun out u hu => ?_)
      cases out with
      | error e => exact hu
      | ok sizes => exact fun v hv => hu.stable (hE.rely hv)
    · rename_i hd
      simp only [Bool.not_eq_true] at hd
      refine Program.Holds.bind_run ((removeBlob_holds hE (hcomplete.unreferenced hd) hw).mono ?_)
      rintro out u ⟨blobs',hu⟩
      cases out with
      | error e => exact hu.empty
      | ok done => exact ih hu

theorem blobs_readOnly : Layout.blobs.run.Only fun c => c.readOnly = true :=
  .bind_run (.bind (.perform rfl) fun _ => trivial) fun _ => trivial

theorem gcScan_holds (hE : Guarded H tidy t E) (hw : Empty tidy t w) :
    ds.gcScan.run.Holds E (fun _ w' => Empty tidy t w') w := by
  refine storeLock_holds hE (fun s blobs index hs => ?_) hw
  refine Program.Holds.bind_run ((entries_holds hE hs).mono ?_)
  rintro out u ⟨hu,hcomplete⟩
  cases out with
  | error e => exact hu.empty
  | ok entries =>
    refine Program.Holds.bind_run ((hE.holds_readOnly blobs_readOnly
      (fun _ _ hr hs => hs.stable hE hr) hu).mono fun out v hv => ?_)
    cases out with
    | error e => exact hv.empty
    | ok found =>
      refine Program.Holds.bind_run ((sweepOrphans_holds hE (hcomplete entries rfl) _ hv).mono
        fun out x hx => ?_)
      cases out with
      | error e => exact hx
      | ok sizes => exact fun y hy => hx.stable (hE.rely hy)

theorem evict_holds (hE : Guarded H tidy t E) (sizes : List (String × ℕ)) (key : ArtifactKey)
    (snapshot : IndexEntry) (hw : Empty tidy t w) :
    (ds.evict H sizes key snapshot).run.Holds E (fun _ w' => Empty tidy t w') w := by
  refine lock_holds hE (fun s hs => ?_) hw
  refine storeLock_holds hE (fun s blobs index hs => ?_) hs
  refine Program.Holds.bind_run ((readEntry_holds hE ds.layout key hs).mono ?_)
  rintro out u ⟨hu,-⟩
  match out with
  | .error e => exact hu.empty
  | .ok none => exact fun v hv => (hu.stable hE hv).empty
  | .ok (some entry) =>
    simp only
    split
    · exact fun v hv => (hu.stable hE hv).empty
    · refine Program.Holds.bind_run ((removeEntry_holds hE key hu).mono ?_)
      rintro out v ⟨index,hv⟩
      cases out with
      | error e => exact hv.empty
      | ok found =>
        refine Program.Holds.bind_run ((digestReferenced_holds hE _ hv).mono ?_)
        rintro out x ⟨hx,hd⟩
        match out with
        | .error e => exact hx.empty
        | .ok true => exact fun y hy => (hx.stable hE hy).empty
        | .ok false =>
          refine Program.Holds.bind_run ((removeBlob_holds hE (hd rfl) hx).mono ?_)
          rintro out y ⟨blobs,hy⟩
          cases out with
          | error e => exact hy.empty
          | ok done => exact fun z hz => (hy.stable hE hz).empty

theorem gcEvict_holds (hE : Guarded H tidy t E) (maxBytes : ℕ) (sizes : List (String × ℕ))
    (oldest : List (ArtifactKey × IndexEntry)) :
    ∀ total {w : World}, Empty tidy t w →
      (ds.gcEvict H maxBytes sizes oldest total).run.Holds E (fun _ w' => Empty tidy t w') w := by
  induction oldest with
  | nil => exact fun _ w hw u hu => hw.stable (hE.rely hu)
  | cons e rest ih =>
    intro total w hw
    obtain ⟨key,snapshot⟩ := e
    unfold Datastore.gcEvict
    split
    · exact fun u hu => hw.stable (hE.rely hu)
    · refine Program.Holds.bind_run ((evict_holds hE sizes key snapshot hw).mono fun out u hu => ?_)
      match out with
      | .error e => exact hu
      | .ok (removed,freed) =>
        refine Program.Holds.bind_run ((ih _ hu).mono fun out v hv => ?_)
        cases out with
        | error e => exact hv
        | ok others => exact fun x hx => hv.stable (hE.rely hx)

theorem gc_holds (hE : Guarded H tidy t E) (maxBytes : ℕ) (hw : Empty tidy t w) :
    (ds.gc H maxBytes).run.Holds E (fun _ w' => Empty tidy t w') w := by
  refine Program.Holds.bind_run ((gcScan_holds hE hw).mono fun out u hu => ?_)
  cases out with
  | error e => exact hu
  | ok scan => exact gcEvict_holds hE _ _ _ _ hu

end reclaim
end StarfieldDatastore
