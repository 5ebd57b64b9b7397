import StarfieldDatastore.Fills
import StarfieldDatastore.Consistency
import StarfieldDatastore.Accounting

/-! What each step of the managed server can do, and what therefore holds in every state
that it reaches: the books of the coordinator and the bytes on disk. -/
namespace StarfieldDatastore
open Interleaving

/-- The step left a temporary file behind that was to be removed. -/
def Call.leaves : (c : Call) → c.Ret → Bool
  | .fs (.dropTmp _), .error _ => true
  | _, _ => false

/-- Threads that serve requests from one managed cache. Workers can panic anywhere and
filesystem steps can fail; when `tidy`, temporary files can always be removed. -/
def managed (tidy : Prop) (H : Sha256) (U : UrlCrate) (c : Coordinator) :
    System ThreadId Call Call.Ret World (Option (Except DatastoreError (Url × MirrorObject))) where
  step t call w r w' := call.Does t w r w' ∧ (tidy → call.leaves r = false)
  launch _ _ p := ∃ artifact, p = Service.request H U c artifact
  kill _ _ _ := False

/-- The coordinator's memory is the same. -/
structure SameMemory (w w' : World) : Prop where
  cache : w'.cache = w.cache
  mutex : w'.mutex = w.mutex
  guards : w'.guards = w.guards
  admitted : w'.admitted = w.admitted

/-- Once no fill is live and nothing failed, admission is open and nothing is reserved. -/
def Balanced (w : World) : Prop :=
  w.guards = ∅ → w.cache.failed = none → w.cache.maintenance = false ∧ w.admitted = []

/-- Everything a step of thread `t` of the managed server can do. -/
inductive ServerStep (tidy : Prop) (p : ServiceCachePolicy) (t : ThreadId) (w w' : World) : Prop
  | idle (same : w' = w)
  | fill (limit) (c : Call) (r : c.Ret) (call : c.fills = true) (does : c.Does t w r w')
      (guard : w.guards.lookup t = some limit) (within : w'.written t ≤ limit)
      (frame : ∀ u, u ≠ t → Frame u w w')
  | reclaim (c : Call) (r : c.Ret) (call : c.reclaims = true) (does : c.Does t w r w') (held : w.mutex = some t)
      (closed : w.cache.maintenance = true) (quiescent : w.guards = ∅)
      (frame : ∀ u, u ≠ t → Frame u w w')
  | lock (free : w.mutex = none) (after : w' = { w with mutex := some t })
  | unlock (held : w.mutex = some t) (balanced : Balanced w) (after : w' = { w with mutex := none })
  | admission (limit) (held : w.mutex = some t) (works : w.cache.failed = none)
      (opened : w.cache.maintenance = false) (slot : w.cache.active < p.maxConcurrentFills)
      (room : w.cache.reserved+limit ≤ p.maxInflightBytes) (guard : w.guards.lookup t = none)
      (unknown : ∀ l, (t,l) ∉ w.admitted) (unwritten : w.written t = 0)
      (after : w' = { w with
        guards := w.guards.insert t limit
        admitted := (t,limit) :: w.admitted
        cache := { w.cache with
          active := w.cache.active+1
          reserved := w.cache.reserved+limit } })
  | retire (limit) (held : w.mutex = some t) (guard : w.guards.lookup t = some limit)
      (empty : Empty tidy t w)
      (after : w' = { w with
        guards := w.guards.erase t
        cache := { w.cache with
          maintenance := true
          active := w.cache.active-1 } })
  | maintained (held : w.mutex = some t) (quiescent : w.guards = ∅)
      (closed : w.cache.maintenance = true) (works : w.cache.failed = none)
      (retained : w.blobBytes ≤ p.maxBytes)
      (after : w' = { w with
        admitted := []
        cache := { w.cache with
          reserved := 0
          maintenance := false } })
  | failed (reason) (held : w.mutex = some t) (quiescent : w.guards = ∅)
      (closed : w.cache.maintenance = true) (works : w.cache.failed = none)
      (after : w' = { w with cache := { w.cache with failed := some reason } })
  | unwind (after : w' = (w.dropOwned t).release t)

/-- What the steps of the other threads leave to thread `t`. -/
structure Apart (t : ThreadId) (w w' : World) : Prop where
  frame : Frame t w w'
  written : w'.written t = w.written t
  mutex : w'.mutex = some t ↔ w.mutex = some t
  guard : w'.guards.lookup t = w.guards.lookup t
  admitted : ∀ l, (t,l) ∈ w'.admitted → (t,l) ∈ w.admitted
  held : w.mutex = some t → w'.cache = w.cache ∧ w'.guards = w.guards ∧ w'.admitted = w.admitted
  quiescent : w.mutex = some t → w.guards = ∅ → w'.blobs = w.blobs

/-- The books of the coordinator. -/
structure Ledger (p : ServiceCachePolicy) (w : World) : Prop where
  active : w.cache.active = w.guards.entries.length
  reserved : w.cache.reserved = (w.admitted.map Prod.snd).sum
  concurrent : w.cache.active ≤ p.maxConcurrentFills
  inflight : w.cache.reserved ≤ p.maxInflightBytes
  live : ∀ t limit, w.guards.lookup t = some limit → (t,limit) ∈ w.admitted
  once : (w.admitted.map Prod.fst).Nodup
  balanced : w.mutex = none → Balanced w
  failed : w.cache.failed ≠ none → w.guards = ∅ ∧ w.cache.maintenance = true

/-- The bytes on disk, and who is answerable for them. -/
structure Space (p : ServiceCachePolicy) (w : World) : Prop where
  owned : ∀ id file, w.tmp.lookup id = some file → ∃ limit, w.guards.lookup file.owner = some limit
  within : ∀ e ∈ w.admitted, w.written e.1 ≤ e.2
  total : w.blobBytes+w.tmpBytes ≤ p.maxBytes+(w.admitted.map fun e => w.written e.1).sum

theorem Apart.refl (t : ThreadId) (w : World) : Apart t w w :=
  ⟨.refl t w,rfl,Iff.rfl,rfl,fun _ h => h,fun _ => ⟨rfl,rfl,rfl⟩,fun _ _ => rfl⟩

theorem Apart.trans {t : ThreadId} {w w' w'' : World} (h : Apart t w w') (h' : Apart t w' w'') :
    Apart t w w'' := by
  refine ⟨h.frame.trans h'.frame,h'.written.trans h.written,h'.mutex.trans h.mutex,
    h'.guard.trans h.guard,fun l hl => h.admitted l (h'.admitted l hl),fun hm => ?_,fun hm hg => ?_⟩
  · obtain ⟨hc,hg,ha⟩ := h.held hm
    obtain ⟨hc',hg',ha'⟩ := h'.held (h.mutex.mpr hm)
    exact ⟨hc'.trans hc,hg'.trans hg,ha'.trans ha⟩
  · exact (h'.quiescent (h.mutex.mpr hm) ((h.held hm).2.1.trans hg)).trans (h.quiescent hm hg)

section steps
variable {tidy : Prop} {p : ServiceCachePolicy} {t u : ThreadId} {w w' : World}

theorem sameMemory_of_fills {c : Call} {r : c.Ret} (hc : c.fills = true) (h : c.Does t w r w') :
    SameMemory w w' := by
  obtain ⟨h1,h2,h3,h4⟩ := h.memory (by rintro c' rfl; cases hc)
  exact ⟨h1,h2,h3,h4⟩

theorem sameMemory_of_reclaims {c : Call} {r : c.Ret} (hc : c.reclaims = true) (h : c.Does t w r w') :
    SameMemory w w' := by
  obtain ⟨h1,h2,h3,h4⟩ := h.memory (by rintro c' rfl; cases hc)
  exact ⟨h1,h2,h3,h4⟩

/-- A maintenance leaves temporary files alone and never adds to the blobs. -/
theorem reclaims_files {c : Call} {r : c.Ret} (hc : c.reclaims = true) (h : c.Does t w r w') :
    w'.tmp = w.tmp ∧ w'.written = w.written := by
  by_cases hread : c.readOnly = true
  · rw [h.readOnly hread]
    exact ⟨rfl,rfl⟩
  cases c with
  | net c => cases hc
  | cache c => cases hc
  | fs c =>
    cases c with
    | lock name =>
      cases r with
      | error e => rw [h.error (by simp)]; exact ⟨rfl,rfl⟩
      | ok out => obtain ⟨-,rfl⟩ := h.lock; exact ⟨rfl,rfl⟩
    | unlock name => rcases h.unlock with rfl | ⟨-,rfl⟩ <;> exact ⟨rfl,rfl⟩
    | createIndexDirs path => obtain ⟨dirs,rfl⟩ := h.createIndexDirs; exact ⟨rfl,rfl⟩
    | unlinkSidecar path => rcases h.unlinkSidecar with ⟨rfl,-⟩ | rfl <;> exact ⟨rfl,rfl⟩
    | unlinkBlob digest => rcases h.unlinkBlob with rfl | rfl <;> exact ⟨rfl,rfl⟩
    | _ => first | exact absurd rfl hread | cases hc

theorem Apart.of_memory (hm : SameMemory w w') (hf : Frame u w w') (hw : w'.written u = w.written u)
    (hq : w.mutex = some u → w.guards = ∅ → w'.blobs = w.blobs) : Apart u w w' :=
  ⟨hf,hw,by rw [hm.mutex],by rw [hm.guards],fun l hl => hm.admitted ▸ hl,
    fun _ => ⟨hm.cache,hm.guards,hm.admitted⟩,hq⟩

/-- A step of one thread is within what the others rely on. -/
theorem ServerStep.apart (h : ServerStep tidy p t w w') (hu : t ≠ u) : Apart u w w' := by
  have taken : w.mutex = some t → w.mutex ≠ some u := fun hm hm' =>
    hu (Option.some.inj (hm.symm.trans hm'))
  have frame : ∀ w'' : World, w''.locks = w.locks → w''.tmp = w.tmp → w''.blobs = w.blobs →
      w''.index = w.index → Frame u w w'' := fun w'' hl ht hb hi =>
    ⟨fun name => by rw [hl],fun _ => ⟨hb,hi⟩,.of_eq ht⟩
  cases h with
  | idle same => exact same ▸ .refl u w
  | fill limit c r call does guard within hf =>
    refine .of_memory (sameMemory_of_fills call does) (hf u hu.symm)
      (does.files.written hu.symm) fun _ hg => ?_
    rw [hg] at guard
    cases guard
  | reclaim c r call does held closed quiescent hf =>
    exact .of_memory (sameMemory_of_reclaims call does) (hf u hu.symm)
      (does.files.written hu.symm) fun hm => absurd hm (taken held)
  | lock free after =>
    subst after
    refine ⟨frame _ rfl rfl rfl rfl,rfl,?_,rfl,fun _ hl => hl,fun hm => ?_,fun hm => ?_⟩
    · simp [free,hu]
    · simp [free] at hm
    · simp [free] at hm
  | unlock held balanced after =>
    subst after
    refine ⟨frame _ rfl rfl rfl rfl,rfl,?_,rfl,fun _ hl => hl,fun hm => absurd hm (taken held),
      fun hm => absurd hm (taken held)⟩
    simp [held,hu]
  | admission limit held works opened slot room guard unknown unwritten after =>
    subst after
    refine ⟨frame _ rfl rfl rfl rfl,rfl,Iff.rfl,AList.lookup_insert_ne hu.symm,fun l hl => ?_,
      fun hm => absurd hm (taken held),fun hm => absurd hm (taken held)⟩
    rcases List.mem_cons.mp hl with he | hl
    · exact absurd (congrArg Prod.fst he).symm hu
    · exact hl
  | retire limit held guard empty after =>
    subst after
    exact ⟨frame _ rfl rfl rfl rfl,rfl,Iff.rfl,AList.lookup_erase_ne hu.symm,fun _ hl => hl,
      fun hm => absurd hm (taken held),fun hm => absurd hm (taken held)⟩
  | maintained held quiescent closed works retained after =>
    subst after
    exact ⟨frame _ rfl rfl rfl rfl,rfl,Iff.rfl,rfl,fun l hl => absurd hl List.not_mem_nil,
      fun hm => absurd hm (taken held),fun hm => absurd hm (taken held)⟩
  | failed reason held quiescent closed works after =>
    subst after
    exact ⟨frame _ rfl rfl rfl rfl,rfl,Iff.rfl,rfl,fun _ hl => hl,
      fun hm => absurd hm (taken held),fun hm => absurd hm (taken held)⟩
  | unwind after =>
    subst after
    refine .of_memory ⟨rfl,rfl,rfl,rfl⟩ ⟨fun name => ?_,fun _ => ⟨rfl,rfl⟩,fun id file ho => ?_⟩ rfl
      fun _ _ => rfl
    · exact (Frame.release hu.symm).locks name
    · rw [World.lookup_unwound]
      exact ⟨fun h => h.1,fun h => ⟨h,fun he => hu (he.symm.trans ho)⟩⟩

theorem Ledger.of_memory (h : Ledger p w) (hm : SameMemory w w') : Ledger p w' := by
  obtain ⟨hc,hm,hg,ha⟩ := hm
  have hb : Balanced w → Balanced w' := fun hb hg' hf => by
    rw [hg] at hg'
    rw [hc] at hf ⊢
    rw [ha]
    exact hb hg' hf
  refine ⟨?_,?_,?_,?_,?_,?_,fun hn => hb (h.balanced (hm ▸ hn)),?_⟩
  · rw [hc,hg]
    exact h.active
  · rw [hc,ha]
    exact h.reserved
  · rw [hc]
    exact h.concurrent
  · rw [hc]
    exact h.inflight
  · rw [hg,ha]
    exact h.live
  · rw [ha]
    exact h.once
  · rw [hc,hg]
    exact h.failed

/-- A guard that is live was admitted with its limit, and once. -/
theorem Ledger.limit_unique (h : Ledger p w) {limit : ℕ} (hg : w.guards.lookup t = some limit)
    {e : ThreadId × ℕ} (he : e ∈ w.admitted) (ht : e.1 = t) : e = (t,limit) :=
  List.inj_on_of_nodup_map h.once he (h.live t limit hg) ht

theorem length_erase {limit : ℕ} (hg : w.guards.lookup t = some limit) :
    (w.guards.erase t).entries.length+1 = w.guards.entries.length := by
  have := AList.weight_erase (f := fun _ => 1) hg
  rwa [AList.weight_one,AList.weight_one] at this

theorem length_insert {limit : ℕ} (hg : w.guards.lookup t = none) :
    (w.guards.insert t limit).entries.length = w.guards.entries.length+1 := by
  rw [AList.entries_insert_of_notMem (AList.lookup_eq_none.mp hg)]
  rfl

/-- The books are kept by every step. -/
theorem ServerStep.ledger (h : ServerStep tidy p t w w') (hl : Ledger p w) : Ledger p w' := by
  cases h with
  | idle same => exact same ▸ hl
  | fill limit c r call does guard within frame => exact hl.of_memory (sameMemory_of_fills call does)
  | reclaim c r call does held closed quiescent frame =>
    exact hl.of_memory (sameMemory_of_reclaims call does)
  | unwind after => exact hl.of_memory (after ▸ ⟨rfl,rfl,rfl,rfl⟩)
  | lock free after =>
    subst after
    exact ⟨hl.active,hl.reserved,hl.concurrent,hl.inflight,hl.live,hl.once,nofun,hl.failed⟩
  | unlock held balanced after =>
    subst after
    exact ⟨hl.active,hl.reserved,hl.concurrent,hl.inflight,hl.live,hl.once,fun _ => balanced,hl.failed⟩
  | admission limit held works opened slot room guard unknown unwritten after =>
    subst after
    refine ⟨?_,?_,slot,room,fun u l hu => ?_,?_,fun hn => ?_,fun hf => absurd works hf⟩
    · simp only [length_insert guard,hl.active]
    · simp only [hl.reserved,List.map_cons,List.sum_cons]
      omega
    · by_cases hut : u = t
      · subst hut
        rw [AList.lookup_insert] at hu
        cases hu
        exact List.mem_cons_self
      · rw [AList.lookup_insert_ne hut] at hu
        exact List.mem_cons_of_mem _ (hl.live u l hu)
    · refine List.nodup_cons.mpr ⟨fun hm => ?_,hl.once⟩
      obtain ⟨⟨u,l⟩,he,rfl⟩ := List.mem_map.mp hm
      exact unknown l he
    · simp [held] at hn
  | retire limit held guard empty after =>
    subst after
    have hlen := length_erase guard
    have hworks : w.cache.failed = none := by
      by_contra hf
      rw [(hl.failed hf).1] at guard
      cases guard
    refine ⟨?_,hl.reserved,?_,hl.inflight,fun u l hu => ?_,hl.once,fun hn => ?_,
      fun hf => absurd hworks hf⟩
    · simp only [hl.active]
      omega
    · exact (Nat.sub_le _ _).trans hl.concurrent
    · by_cases hut : u = t
      · subst hut
        rw [AList.lookup_erase] at hu
        cases hu
      · rw [AList.lookup_erase_ne hut] at hu
        exact hl.live u l hu
    · simp [held] at hn
  | maintained held quiescent closed works retained after =>
    subst after
    refine ⟨hl.active,rfl,hl.concurrent,Nat.zero_le _,fun u l hu => ?_,List.nodup_nil,fun hn => ?_,
      fun hf => absurd works hf⟩
    · rw [show w.guards = ∅ from quiescent] at hu
      cases hu
    · simp [held] at hn
  | failed reason held quiescent closed works after =>
    subst after
    refine ⟨hl.active,hl.reserved,hl.concurrent,hl.inflight,hl.live,hl.once,fun hn => ?_,
      fun _ => ⟨quiescent,closed⟩⟩
    simp [held] at hn

/-- The sum of what was written changes with the one thread that wrote. -/
theorem sum_written {L : List (ThreadId × ℕ)} {f g : ThreadId → ℕ} {limit : ℕ}
    (hmem : (t,limit) ∈ L) (hnodup : (L.map Prod.fst).Nodup) (hother : ∀ u, u ≠ t → g u = f u) :
    (L.map fun e => g e.1).sum+f t = (L.map fun e => f e.1).sum+g t := by
  have same : ∀ L : List (ThreadId × ℕ), t ∉ L.map Prod.fst →
      (L.map fun e => g e.1) = L.map fun e => f e.1 := fun L hL =>
    List.map_congr_left fun e he => hother e.1 fun h => hL (h ▸ List.mem_map_of_mem he)
  induction L with
  | nil => cases hmem
  | cons e L ih =>
    obtain ⟨hfirst,hrest⟩ := List.nodup_cons.mp hnodup
    simp only [List.map_cons,List.sum_cons]
    rcases List.mem_cons.mp hmem with rfl | hmem
    · rw [same L hfirst]
      simp only
      omega
    · have hne : e.1 ≠ t := fun h => hfirst (h ▸ List.mem_map_of_mem (f := Prod.fst) hmem)
      have := ih hmem hrest
      rw [hother e.1 hne]
      omega

theorem Space.tmp_empty (h : Space p w) (hg : w.guards = ∅) (id : ℕ) : w.tmp.lookup id = none := by
  cases hl : w.tmp.lookup id with
  | none => rfl
  | some file =>
    obtain ⟨limit,ho⟩ := h.owned id file hl
    rw [hg] at ho
    cases ho

theorem tmpBytes_eq_zero (h : ∀ id, w.tmp.lookup id = none) : w.tmpBytes = 0 := by
  have hnil : w.tmp.entries = [] := by
    refine List.eq_nil_iff_forall_not_mem.mpr fun e he => ?_
    have := AList.mem_lookup_iff.mpr he
    rw [h] at this
    cases this
  rw [World.tmpBytes,AList.weight,hnil]
  rfl

/-- The bytes on disk stay within what was admitted, if files can always be removed. -/
theorem ServerStep.space (h : ServerStep tidy p t w w') (htidy : tidy) (hl : Ledger p w)
    (hs : Space p w) : Space p w' := by
  cases h with
  | idle same => exact same ▸ hs
  | fill limit c r call does guard within frame =>
    have hm := sameMemory_of_fills call does
    refine ⟨fun id file hf => ?_,fun e he => ?_,?_⟩
    · rw [hm.guards]
      rcases does.files.owned hf with ho | ⟨old,hold,ho⟩
      · exact ⟨limit,ho ▸ guard⟩
      · exact ho ▸ hs.owned id old hold
    · rw [hm.admitted] at he
      by_cases het : e.1 = t
      · rw [hl.limit_unique guard he het]
        exact within
      · rw [does.files.written het]
        exact hs.within e he
    · have hbytes := does.files.bytes_le
      have hsum := sum_written (f := w.written) (g := w'.written) (hl.live t limit guard) hl.once
        fun u hu => does.files.written hu
      have htotal := hs.total
      rw [hm.admitted]
      omega
  | reclaim c r call does held closed quiescent frame =>
    have hm := sameMemory_of_reclaims call does
    obtain ⟨htmp,hwritten⟩ := reclaims_files call does
    refine ⟨fun id file hf => ?_,fun e he => ?_,?_⟩
    · rw [hm.guards]
      exact hs.owned id file (htmp ▸ hf)
    · rw [hwritten]
      exact hs.within e (hm.admitted ▸ he)
    · have hbytes := does.files.bytes_le
      have htotal := hs.total
      rw [hm.admitted,hwritten]
      rw [hwritten] at hbytes
      omega
  | lock free after => exact after ▸ ⟨hs.owned,hs.within,hs.total⟩
  | unlock held balanced after => exact after ▸ ⟨hs.owned,hs.within,hs.total⟩
  | failed reason held quiescent closed works after => exact after ▸ ⟨hs.owned,hs.within,hs.total⟩
  | admission limit held works opened slot room guard unknown unwritten after =>
    subst after
    refine ⟨fun id file hf => ?_,fun e he => ?_,?_⟩
    · by_cases hft : file.owner = t
      · exact ⟨limit,hft ▸ AList.lookup_insert _⟩
      · obtain ⟨l,ho⟩ := hs.owned id file hf
        exact ⟨l,(AList.lookup_insert_ne hft).trans ho⟩
    · rcases List.mem_cons.mp he with rfl | he
      · exact unwritten ▸ Nat.zero_le _
      · exact hs.within e he
    · have htotal := hs.total
      simp only [List.map_cons,List.sum_cons]
      exact htotal.trans (by omega)
  | retire limit held guard empty after =>
    subst after
    refine ⟨fun id file hf => ?_,hs.within,hs.total⟩
    obtain ⟨l,ho⟩ := hs.owned id file hf
    exact ⟨l,(AList.lookup_erase_ne (empty htidy id file hf)).trans ho⟩
  | maintained held quiescent closed works retained after =>
    have hempty := hs.tmp_empty quiescent
    have hzero := tmpBytes_eq_zero hempty
    subst after
    refine ⟨fun id file hf => ?_,fun e he => absurd he List.not_mem_nil,?_⟩
    · have hf' : w.tmp.lookup id = some file := hf
      rw [hempty id] at hf'
      cases hf'
    · show w.blobBytes+w.tmpBytes ≤ p.maxBytes+0
      omega
  | unwind after =>
    subst after
    refine ⟨fun id file hf => hs.owned id file ((World.lookup_unwound id file).mp hf).1,hs.within,?_⟩
    have hbytes := World.Files.bytes_le (.unwound (t := t) (w := w) rfl)
    exact (Nat.le_of_add_le_add_right hbytes).trans hs.total

end steps
end StarfieldDatastore
