import StarfieldDatastore.Managed
import StarfieldDatastore.Interleaving.Replay
import StarfieldDatastore.Interleaving.Total
import Mathlib.Algebra.Order.BigOperators.Group.List
import Mathlib.Algebra.Order.Ring.Nat

/-! The managed cache over whole runs: what its coordinator keeps, and how many bytes it
ever has on disk. -/
namespace StarfieldDatastore
open Interleaving

/-- The memory of a coordinator that was just started. -/
structure Started (w : World) : Prop where
  cache : w.cache = .default
  mutex : w.mutex = none
  guards : w.guards = ∅
  admitted : w.admitted = []
  written : ∀ t, w.written t = 0

/-- Some blob or sidecar is gone. -/
def Removes (w w' : World) : Prop :=
  (∃ digest, (w.blobs.lookup digest).isSome ∧ w'.blobs.lookup digest = none) ∨
    ∃ path, (w.index.lookup path).isSome ∧ w'.index.lookup path = none

/-- What the coordinator keeps at each step. -/
structure Admits (p : ServiceCachePolicy) (w w' : World) : Prop where
  removal : Removes w w' →
    w.guards = ∅ ∧ w.cache.maintenance = true ∧ ∃ t, w.mutex = some t
  dropped : ∀ t, (w.guards.lookup t).isSome → w'.guards.lookup t = none →
    w'.cache.maintenance = true
  closed : w.cache.maintenance = true →
    ∀ t limit, w'.guards.lookup t = some limit → w.guards.lookup t = some limit
  reopened : w.cache.maintenance = true → w'.cache.maintenance = false →
    w.guards = ∅ ∧ w.cache.failed = none ∧ w.blobBytes ≤ p.maxBytes

/-- Nothing is live, and a maintenance has just found the blobs within the budget. -/
structure Maintained (p : ServiceCachePolicy) (w : World) : Prop where
  quiescent : w.guards = ∅
  works : w.cache.failed = none
  retained : w.blobBytes ≤ p.maxBytes

/-- A step without faults, which finds this much free space when it looks. -/
def Call.Roomy (t : ThreadId) (space : ℕ) : (c : Call) → World → c.Ret → World → Prop
  | .fs .availableSpace, w, r, w' => ∃ n, space ≤ n ∧ r = .ok n ∧ w' = w
  | c, w, r, w' => c.Works t w r w'

section steps
variable {tidy : Prop} {p : ServiceCachePolicy} {t : ThreadId} {w w' : World}

theorem isSome_insert {α : Type} [DecidableEq α] {β : α → Type} {s : AList β} {a b : α} {v : β b}
    (h : (s.lookup a).isSome) : ((s.insert b v).lookup a).isSome := by
  by_cases hab : a = b
  · subst hab
    rw [AList.lookup_insert]
    rfl
  · rwa [AList.lookup_insert_ne hab]

/-- A fill takes nothing away from the store. -/
theorem fills_keeps {c : Call} {r : c.Ret} (hc : c.fills = true) (h : c.Does t w r w') :
    ¬ Removes w w' := by
  have keeps : (∀ digest, (w.blobs.lookup digest).isSome → (w'.blobs.lookup digest).isSome) ∧
      ∀ path, (w.index.lookup path).isSome → (w'.index.lookup path).isSome := by
    by_cases hread : c.readOnly = true
    · rw [h.readOnly hread]
      exact ⟨fun _ h => h,fun _ h => h⟩
    cases c with
    | net c => exact absurd rfl hread
    | cache c => cases hc
    | fs c =>
      cases c with
      | lock name =>
        cases r with
        | error e => rw [h.error (by simp)]; exact ⟨fun _ h => h,fun _ h => h⟩
        | ok out => obtain ⟨-,rfl⟩ := h.lock; exact ⟨fun _ h => h,fun _ h => h⟩
      | unlock name => rcases h.unlock with rfl | ⟨-,rfl⟩ <;> exact ⟨fun _ h => h,fun _ h => h⟩
      | createIndexDirs path =>
        obtain ⟨dirs,rfl⟩ := h.createIndexDirs
        exact ⟨fun _ h => h,fun _ h => h⟩
      | persistSidecar path entry =>
        rcases h.persistSidecar with rfl | rfl
        · exact ⟨fun _ h => h,fun _ h => h⟩
        · exact ⟨fun _ h => h,fun _ h => isSome_insert h⟩
      | persistBlob tmp digest =>
        cases r with
        | error e => rw [h.error (by simp)]; exact ⟨fun _ h => h,fun _ h => h⟩
        | ok out =>
          obtain ⟨file,-,rfl⟩ := h.persistBlob
          exact ⟨fun _ h => isSome_insert h,fun _ h => h⟩
      | createTmp =>
        cases r with
        | error e => rw [h.error (by simp)]; exact ⟨fun _ h => h,fun _ h => h⟩
        | ok out => obtain ⟨-,rfl⟩ := h.createTmp; exact ⟨fun _ h => h,fun _ h => h⟩
      | appendTmp tmp buf =>
        cases r with
        | ok out => obtain ⟨file,-,rfl⟩ := h.appendTmp; exact ⟨fun _ h => h,fun _ h => h⟩
        | error e =>
          rcases h.appendTmp_error with rfl | ⟨file,n,-,rfl⟩ <;> exact ⟨fun _ h => h,fun _ h => h⟩
      | dropTmp tmp => rcases h.dropTmp with rfl | ⟨rfl,-⟩ <;> exact ⟨fun _ h => h,fun _ h => h⟩
      | _ => first | exact absurd rfl hread | cases hc
  rintro (⟨digest,hs,hn⟩ | ⟨path,hs,hn⟩)
  · have := keeps.1 digest hs
    simp [hn] at this
  · have := keeps.2 path hs
    simp [hn] at this

theorem not_removes (hb : w'.blobs = w.blobs) (hi : w'.index = w.index) : ¬ Removes w w' := by
  rintro (⟨digest,hs,hn⟩ | ⟨path,hs,hn⟩)
  · rw [← hb,hn] at hs
    cases hs
  · rw [← hi,hn] at hs
    cases hs

theorem Admits.of_memory (hm : SameMemory w w') (hr : Removes w w' →
    w.guards = ∅ ∧ w.cache.maintenance = true ∧ ∃ t, w.mutex = some t) : Admits p w w' := by
  refine ⟨hr,fun u hu hn => ?_,fun _ u limit hl => hm.guards ▸ hl,fun ho hc => ?_⟩
  · rw [hm.guards] at hn
    simp [hn] at hu
  · rw [hm.cache,ho] at hc
    cases hc

theorem ServerStep.admits (h : ServerStep tidy p t w w') : Admits p w w' := by
  cases h with
  | idle same => exact same ▸ .of_memory ⟨rfl,rfl,rfl,rfl⟩ fun h => absurd h (not_removes rfl rfl)
  | fill limit c r call does guard within frame =>
    exact .of_memory (sameMemory_of_fills call does) fun h => absurd h (fills_keeps call does)
  | reclaim c r call does held closed quiescent frame =>
    exact .of_memory (sameMemory_of_reclaims call does) fun _ => ⟨quiescent,closed,t,held⟩
  | lock free after =>
    subst after
    exact ⟨fun h => absurd h (not_removes rfl rfl),fun u hu hn => by simp [hn] at hu,
      fun _ _ _ h => h,fun ho hc => by simp [ho] at hc⟩
  | unlock held balanced after =>
    subst after
    exact ⟨fun h => absurd h (not_removes rfl rfl),fun u hu hn => by simp [hn] at hu,
      fun _ _ _ h => h,fun ho hc => by simp [ho] at hc⟩
  | admission limit held works opened slot room guard unknown unwritten after =>
    subst after
    refine ⟨fun h => absurd h (not_removes rfl rfl),fun u hu hn => ?_,fun ho => ?_,fun ho => ?_⟩
    · have := isSome_insert (b := t) (v := limit) hu
      simp [hn] at this
    · simp [opened] at ho
    · simp [opened] at ho
  | retire limit held guard empty after =>
    subst after
    refine ⟨fun h => absurd h (not_removes rfl rfl),fun _ _ _ => rfl,fun _ u l hl => ?_,
      fun _ hc => by cases hc⟩
    by_cases hu : u = t
    · subst hu
      rw [AList.lookup_erase] at hl
      cases hl
    · rwa [AList.lookup_erase_ne hu] at hl
  | maintained held quiescent closed works retained after =>
    subst after
    exact ⟨fun h => absurd h (not_removes rfl rfl),fun u hu hn => by simp [hn] at hu,
      fun _ _ _ h => h,fun _ _ => ⟨quiescent,works,retained⟩⟩
  | failed reason held quiescent closed works after =>
    subst after
    exact ⟨fun h => absurd h (not_removes rfl rfl),fun u hu hn => by simp [hn] at hu,
      fun _ _ _ h => h,fun ho hc => by simp [ho] at hc⟩
  | unwind after => exact after ▸ .of_memory ⟨rfl,rfl,rfl,rfl⟩ fun h => absurd h (not_removes rfl rfl)

/-- After a failed maintenance no step changes the books. -/
theorem ServerStep.failed_kept (h : ServerStep tidy p t w w') (hl : Ledger p w)
    (hfailed : w.cache.failed ≠ none) :
    w'.cache.failed = w.cache.failed ∧ w'.guards = ∅ ∧ w'.admitted = w.admitted := by
  have hguards := (hl.failed hfailed).1
  cases h with
  | idle same =>
    subst same
    exact ⟨rfl,hguards,rfl⟩
  | fill limit c r call does guard within frame =>
    rw [hguards] at guard
    cases guard
  | reclaim c r call does held closed quiescent frame =>
    have hm := sameMemory_of_reclaims call does
    exact ⟨by rw [hm.cache],hm.guards.trans hguards,hm.admitted⟩
  | lock free after =>
    subst after
    exact ⟨rfl,hguards,rfl⟩
  | unlock held balanced after =>
    subst after
    exact ⟨rfl,hguards,rfl⟩
  | admission limit held works opened slot room guard unknown unwritten after => exact absurd works hfailed
  | retire limit held guard empty after =>
    rw [hguards] at guard
    cases guard
  | maintained held quiescent closed works retained after => exact absurd works hfailed
  | failed reason held quiescent closed works after => exact absurd works hfailed
  | unwind after =>
    subst after
    exact ⟨rfl,hguards,rfl⟩

end steps

section coordinator
variable {tidy : Prop} {H : Sha256} {U : UrlCrate} {c : Coordinator} {t : ThreadId} {w : World}
  {cfg cfg' : Config ThreadId Call Call.Ret World (Option (Except DatastoreError (Url × MirrorObject)))}

theorem Started.ledger {p : ServiceCachePolicy} (h : Started w) : Ledger p w := by
  refine ⟨?_,?_,?_,?_,fun t limit hl => ?_,?_,fun _ _ _ => ?_,fun hf => ?_⟩
  · rw [h.cache,h.guards]
    rfl
  · rw [h.cache,h.admitted]
    rfl
  · rw [h.cache]
    exact Nat.zero_le _
  · rw [h.cache]
    exact Nat.zero_le _
  · rw [h.guards] at hl
    cases hl
  · rw [h.admitted]
    exact List.nodup_nil
  · rw [h.cache]
    exact ⟨rfl,h.admitted⟩
  · rw [h.cache] at hf
    exact absurd rfl hf

theorem Started.fresh (h : Started w) (hempty : Empty tidy t w) : Fresh tidy t w := by
  refine ⟨?_,fun l hl => ?_,h.written t,fun hm => ?_,hempty⟩
  · rw [h.guards]
    rfl
  · rw [h.admitted] at hl
    cases hl
  · rw [h.mutex] at hm
    cases hm

/-- What validation makes sure of. -/
theorem validate_ok {p : ServiceCachePolicy} (h : p.validate = .ok ()) :
    0 < p.maxConcurrentFills ∧ p.maxArtifactBytes ≤ p.maxInflightBytes ∧
      p.maxInflightBytes+p.minFreeBytes < 2^64 := by
  unfold ServiceCachePolicy.validate at h
  split at h
  · cases h
  · rename_i hv
    simp only [Bool.or_eq_true,decide_eq_true_eq,not_or] at hv
    obtain ⟨⟨⟨⟨hslots,-⟩,hroom⟩,hfree⟩,-⟩ := hv
    refine ⟨by omega,by omega,?_⟩
    by_contra hlt
    rw [checkedAdd,if_neg hlt] at hfree
    exact hfree rfl

/-- Over an empty ledger whatever fits is admitted. -/
theorem admitLocked_total {limit : ℕ} (hp : c.policy.validate = .ok ()) (hc : w.cache = .default)
    (hle : limit ≤ c.policy.maxArtifactBytes) :
    (c.admitLocked limit).run.Total (Call.Roomy t (c.policy.minFreeBytes+limit)) (fun out w' =>
      out = .ok () ∧ w'.mutex = w.mutex ∧ w'.guards.lookup t = some limit) w := by
  obtain ⟨hslots,hfits,hspace⟩ := validate_ok hp
  refine Program.Total.bind_run (Program.Total.perform_bind ⟨w.cache,w,(),rfl⟩ fun r u hread => ?_)
  obtain ⟨rfl,rfl⟩ := Call.Does.readState (.inl hread)
  have hroom : (checkedAdd CacheState.default.reserved limit).filter
      (· ≤ c.policy.maxInflightBytes) = some limit := by
    simp only [CacheState.default,checkedAdd,Nat.zero_add]
    rw [if_pos (by have := hle.trans hfits; omega)]
    simp [hle.trans hfits]
  have hfree : checkedAdd c.policy.minFreeBytes limit = some (c.policy.minFreeBytes+limit) :=
    if_pos (by omega)
  have hopen : (CacheState.default.maintenance ||
      decide (CacheState.default.active ≥ c.policy.maxConcurrentFills)) = false := by
    simp only [CacheState.default,Bool.false_or]
    exact decide_eq_false (not_le.mpr hslots)
  have hworks : CacheState.default.failed = none := rfl
  simp only [hc,Function.comp_apply,Program.Total,hworks,hopen,hroom,hfree,Bool.false_eq_true,if_false]
  refine Program.Total.perform_bind ⟨.ok (c.policy.minFreeBytes+limit),u,_,le_rfl,rfl,rfl⟩
    fun r v hstep => ?_
  obtain ⟨space,hspace,rfl,rfl⟩ := hstep
  show Program.Total _ (ExceptT.run (if space < c.policy.minFreeBytes+limit then _ else _)) _ v
  rw [if_neg (not_lt.mpr hspace)]
  refine Program.Total.perform_bind ⟨(),_,(),rfl⟩ fun r v' hstep => ?_
  obtain rfl := Call.Does.writeState (.inl hstep)
  exact ⟨rfl,rfl,AList.lookup_insert _⟩

/-- With nothing live and the mutex free, whatever fits the limits is admitted. -/
theorem admitFill_total {expected : Option ℕ} (hp : c.policy.validate = .ok ())
    (hl : Ledger c.policy w) (hm : w.mutex = none) (hg : w.guards = ∅) (hf : w.cache.failed = none)
    (hle : expected.getD c.policy.maxArtifactBytes ≤ c.policy.maxArtifactBytes) :
    (c.admitFill expected).run.Total
      (Call.Roomy t (c.policy.minFreeBytes+expected.getD c.policy.maxArtifactBytes))
      (fun out w' => out = .ok (expected.getD c.policy.maxArtifactBytes) ∧
        w'.guards.lookup t = some (expected.getD c.policy.maxArtifactBytes)) w := by
  obtain ⟨hopen,hnone⟩ := hl.balanced hm hg hf
  have hactive : w.cache.active = 0 := by
    rw [hl.active,hg]
    rfl
  have hreserved : w.cache.reserved = 0 := by
    rw [hl.reserved,hnone]
    rfl
  have hc : w.cache = .default := by
    cases hcache : w.cache
    simp only [hcache] at hactive hreserved hopen hf
    rw [hactive,hreserved,hopen,hf]
    rfl
  unfold Coordinator.admitFill
  generalize expected.getD c.policy.maxArtifactBytes = limit at hle
  simp only
  rw [if_neg (by omega)]
  refine Program.Total.perform_bind ⟨true,{ w with mutex := some t },(),?_⟩ fun r u hstep => ?_
  · simp [World.exec,World.runCache,hm]
  rcases Call.Does.tryLockState (.inl hstep) with ⟨rfl,-,rfl⟩ | ⟨-,hbusy,-⟩
  · refine Program.Total.bind ((admitLocked_total (w := { w with mutex := some t }) hp hc hle).mono fun out v hv => ?_)
    obtain ⟨rfl,hmutex,hguard⟩ := hv
    refine Program.Total.perform_bind ⟨(),{ v with mutex := none },(),?_⟩ fun r x hstep => ?_
    · simp [World.exec,World.runCache,hmutex]
    obtain rfl := Call.Does.unlockState (.inl hstep) hmutex
    exact ⟨rfl,hguard⟩
  · exact absurd hm hbusy

theorem sound_started (hw : Started w) (hempty : ∀ t, Empty tidy t w)
    (hspace : tidy → Space c.policy w) :
    (managedDiscipline tidy H U c).Sound (System.init w) :=
  (managedDiscipline tidy H U c).sound_init ⟨hw.ledger,hspace⟩ fun t => hw.fresh (hempty t)

theorem Admits.next (hs : (managedDiscipline tidy H U c).Sound cfg)
    (hn : (managed tidy H U c).Next cfg cfg') : Admits c.policy cfg.state cfg'.state := by
  rcases hs.step_cases _ hn with he | ⟨t,hg | hk⟩
  · rw [he]
    have hidle : ServerStep tidy c.policy 0 cfg.state cfg.state := .idle rfl
    exact hidle.admits
  · exact ServerStep.admits hg
  · exact hk.elim

/-- Once closed, admission stays closed, to all but the fills that are live, until a
maintenance has succeeded. -/
theorem closed_until_maintained (hs : (managedDiscipline tidy H U c).Sound cfg)
    (hclosed : cfg.state.cache.maintenance = true) (hr : (managed tidy H U c).Reaches cfg cfg') :
    (cfg'.state.cache.maintenance = true ∧ ∀ t limit, cfg'.state.guards.lookup t = some limit →
      cfg.state.guards.lookup t = some limit) ∨
    ∃ mid, (managed tidy H U c).Reaches cfg mid ∧ (managed tidy H U c).Reaches mid cfg' ∧
      Maintained c.policy mid.state := by
  induction hr with
  | refl => exact .inl ⟨hclosed,fun _ _ h => h⟩
  | tail hr hn ih =>
    rename_i mid last
    rcases ih with ⟨hmid,hguards⟩ | ⟨mid',hr',hr'',hm⟩
    · have hstep := Admits.next ((managedDiscipline tidy H U c).sound_of_reaches hs hr) hn
      cases hlast : last.state.cache.maintenance with
      | true => exact .inl ⟨rfl,fun t limit h => hguards t limit (hstep.closed hmid t limit h)⟩
      | false =>
        obtain ⟨hquiescent,hworks,hretained⟩ := hstep.reopened hmid hlast
        exact .inr ⟨mid,hr,.tail .refl hn,hquiescent,hworks,hretained⟩
    · exact .inr ⟨mid',hr',hr''.tail hn,hm⟩

/-- A failed maintenance closes admission for good. -/
theorem failed_for_good (hs : (managedDiscipline tidy H U c).Sound cfg)
    (hfailed : cfg.state.cache.failed ≠ none) (hr : (managed tidy H U c).Reaches cfg cfg') :
    cfg'.state.cache.failed = cfg.state.cache.failed ∧ cfg'.state.guards = ∅ ∧
      cfg'.state.admitted = cfg.state.admitted :=
  (managedDiscipline tidy H U c).kept_of_reaches (P := fun w => w.cache.failed = cfg.state.cache.failed ∧
      w.guards = ∅ ∧ w.admitted = cfg.state.admitted)
    (fun t w w' hinv hstep hw => by
      obtain ⟨hf,hg,ha⟩ := hstep.failed_kept hinv.1 (hw.1 ▸ hfailed)
      exact ⟨hf.trans hw.1,hg,ha.trans hw.2.2⟩)
    (fun t w w' _ hk _ => hk.elim) hs ⟨rfl,(hs.inv.1.failed hfailed).1,rfl⟩ hr

/-- The fill of thread `t` is live: the thread runs, and it has a guard that it has not dropped. -/
def LiveFill
    (cfg : Config ThreadId Call Call.Ret World (Option (Except DatastoreError (Url × MirrorObject))))
    (t : ThreadId) : Prop :=
  cfg.Running t ∧ ∃ limit, cfg.state.guards.lookup t = some limit

/-- A thread that does not run has let go of its guard and of the mutex. -/
theorem released_of_reaches (hs : (managedDiscipline tidy H U c).Sound (System.init w))
    (hr : (managed tidy H U c).Reaches (System.init w) cfg) (ht : ¬ cfg.Running t) : Released t cfg.state := by
  have hkilled := System.not_killed hr fun _ _ _ h => h
  have hsound := (managedDiscipline tidy H U c).sound_of_reaches hs hr
  by_contra hheld
  exact ht (hsound.running _ (P := Released) (fun _ _ h => h.released) (fun _ _ _ _ h => h) hkilled hheld)

/-- The guards are those of the live fills. -/
theorem liveFill_iff (hs : (managedDiscipline tidy H U c).Sound (System.init w))
    (hr : (managed tidy H U c).Reaches (System.init w) cfg) :
    LiveFill cfg t ↔ t ∈ cfg.state.guards.keys := by
  have hkeys : t ∈ cfg.state.guards.keys ↔ ∃ limit, cfg.state.guards.lookup t = some limit := by
    rw [← AList.mem_keys,← AList.lookup_isSome,Option.isSome_iff_exists]
  rw [hkeys]
  refine ⟨fun h => h.2,fun ⟨limit,hl⟩ => ⟨?_,limit,hl⟩⟩
  by_contra hidle
  have := (released_of_reaches hs hr hidle).guard
  rw [hl] at this
  cases this

theorem guards_eq_empty_of_idle (hs : (managedDiscipline tidy H U c).Sound (System.init w))
    (hr : (managed tidy H U c).Reaches (System.init w) cfg) (hidle : ∀ t, ¬ LiveFill cfg t) :
    cfg.state.guards = ∅ := by
  refine AList.ext (List.eq_nil_iff_forall_not_mem.mpr fun e he => ?_)
  exact hidle e.1 ((liveFill_iff hs hr).mpr (List.mem_map_of_mem he))

/-- Of one state, what a coordinator promises. -/
structure Coordinated (tidy : Prop) (H : Sha256) (U : UrlCrate) (c : Coordinator)
    (cfg : Config ThreadId Call Call.Ret World (Option (Except DatastoreError (Url × MirrorObject)))) :
    Prop where
  fills : ∃ live : List ThreadId, live.Nodup ∧ (∀ t, t ∈ live ↔ LiveFill cfg t) ∧
    cfg.state.cache.active = live.length
  released : ∀ t, ¬ cfg.Running t → Released t cfg.state
  active : cfg.state.cache.active = cfg.state.guards.entries.length
  concurrent : cfg.state.cache.active ≤ c.policy.maxConcurrentFills
  reserved : cfg.state.cache.reserved = (cfg.state.admitted.map Prod.snd).sum
  inflight : cfg.state.cache.reserved ≤ c.policy.maxInflightBytes
  bounded : cfg.state.cache.active < 2^64 ∧ cfg.state.cache.reserved < 2^64
  steps : ∀ cfg', (managed tidy H U c).Next cfg cfg' → Admits c.policy cfg.state cfg'.state
  closed : cfg.state.cache.maintenance = true → ∀ cfg', (managed tidy H U c).Reaches cfg cfg' →
    (cfg'.state.cache.maintenance = true ∧ ∀ t limit, cfg'.state.guards.lookup t = some limit →
      cfg.state.guards.lookup t = some limit) ∨
    ∃ mid, (managed tidy H U c).Reaches cfg mid ∧ (managed tidy H U c).Reaches mid cfg' ∧
      Maintained c.policy mid.state
  failed : cfg.state.cache.failed ≠ none → ∀ cfg', (managed tidy H U c).Reaches cfg cfg' →
    cfg'.state.cache.failed = cfg.state.cache.failed ∧ cfg'.state.guards = ∅ ∧
      cfg'.state.admitted = cfg.state.admitted
  idle : (∀ t, ¬ LiveFill cfg t) → cfg.state.cache.failed = none → cfg.state.mutex = none →
    cfg.state.cache.reserved = 0 ∧ ∀ t expected,
      expected.getD c.policy.maxArtifactBytes ≤ c.policy.maxArtifactBytes →
      (c.admitFill expected).run.Total
        (Call.Roomy t (c.policy.minFreeBytes+expected.getD c.policy.maxArtifactBytes))
        (fun out w' => out = .ok (expected.getD c.policy.maxArtifactBytes) ∧
          w'.guards.lookup t = some (expected.getD c.policy.maxArtifactBytes)) cfg.state

theorem Coordinated.of_sound (hp : c.policy.validate = .ok ())
    (hinit : (managedDiscipline tidy H U c).Sound (System.init w))
    (hr : (managed tidy H U c).Reaches (System.init w) cfg) : Coordinated tidy H U c cfg := by
  have hs := (managedDiscipline tidy H U c).sound_of_reaches hinit hr
  have hl := hs.inv.1
  have hspace := (validate_ok hp).2.2
  have husize := c.policy.usize
  have hactive := hl.concurrent
  have hreserved := hl.inflight
  have hfills : cfg.state.cache.active = cfg.state.guards.keys.length :=
    hl.active.trans (List.length_map _).symm
  refine ⟨⟨_,cfg.state.guards.keys_nodup,fun t => (liveFill_iff hinit hr).symm,hfills⟩,
    fun _ ht => released_of_reaches hinit hr ht,hl.active,hl.concurrent,hl.reserved,hl.inflight,
    ⟨by omega,by omega⟩,fun _ hn => .next hs hn,fun hm _ hr => closed_until_maintained hs hm hr,
    fun hf _ hr => failed_for_good hs hf hr,fun hidle hf hm => ?_⟩
  have hg := guards_eq_empty_of_idle hinit hr hidle
  refine ⟨?_,fun t expected hle => admitFill_total hp hl hm hg hf hle⟩
  rw [hl.reserved,(hl.balanced hm hg hf).2]
  rfl

/-- The coordinator's promises hold in every state that a managed server reaches, whatever
fails and panics. -/
theorem coordinated_of_reaches (hp : c.policy.validate = .ok ()) (hw : Started w)
    (hr : (managed False H U c).Reaches (System.init w) cfg) : Coordinated False H U c cfg :=
  .of_sound hp (sound_started hw (fun _ h => h.elim) fun h => h.elim) hr

theorem started_fresh : Started .fresh := ⟨rfl,rfl,rfl,rfl,fun _ => rfl⟩

/-- A coordinator whose store may go upstream. -/
def Coordinator.sample : Coordinator := ⟨⟨⟨"/cache"⟩,none,⟨none⟩,true,false,none⟩,.sample⟩

theorem Call.Works.leaves {c : Call} {w w' : World} {r : c.Ret} (h : c.Works t w r w') : c.leaves r = false := by
  obtain ⟨x,h⟩ := h
  cases c with
  | fs c =>
    cases c with
    | dropTmp tmp =>
      cases h
      rfl
    | _ => rfl
  | _ => rfl

/-- A request for `abc`, which the mirror does not have yet. -/
def Service.offered : Prog (Option (Except DatastoreError (Url × MirrorObject))) :=
  request .sample (twoHosts "a.com" "b.org") .sample .offered

/-- After 25 steps the fill is live, with its three bytes under `tmp/`; then it is answered. -/
def servedFrom (w : World) : Bool :=
  (Service.offered.replay (World.serve [0x61,0x62,0x63]) 25 w).any fun mid =>
    (mid.2.guards.lookup 0).isSome && mid.2.tmpBytes = 3 &&
      mid.1.replays (World.serve [0x61,0x62,0x63]) 200 mid.2 fun out last =>
        last.cache.failed.isNone && out.any fun answer => answer.isOk

theorem offered_served (tidy : Prop) (h : servedFrom w = true) : ∃ mid cfg,
    (managed tidy .sample (twoHosts "a.com" "b.org") .sample).Reaches (System.init w) mid ∧ LiveFill mid 0 ∧
      mid.state.tmpBytes = 3 ∧ (managed tidy .sample (twoHosts "a.com" "b.org") .sample).Reaches mid cfg ∧
      (∀ t, ¬ cfg.Running t) ∧ cfg.state.cache.failed = none ∧ ∃ out, cfg.thread 0 = .finished w (some (.ok out)) := by
  have hstep : ∀ (c : Call) (w : World) (r : c.Ret) (w' : World), w.serve [0x61,0x62,0x63] c = some (r,w') →
      (managed tidy .sample (twoHosts "a.com" "b.org") .sample).step 0 c w r w' := by
    intro c w r w' hserve
    have hworks := serve_works _ c w r w' hserve
    exact ⟨.inl hworks,fun _ => hworks.leaves⟩
  obtain ⟨⟨p,u⟩,hp,h⟩ := (Option.any_eq_true _ _).mp h
  simp only [Bool.and_eq_true,decide_eq_true_eq] at h
  obtain ⟨⟨hguard,htmp⟩,h⟩ := h
  obtain ⟨out,v,hv,hcheck⟩ := Program.replay_of_replays h
  simp only [Bool.and_eq_true,Option.isNone_iff_eq_none] at hcheck
  obtain ⟨hworks,hout⟩ := hcheck
  obtain ⟨answer,rfl,hok⟩ := (Option.any_eq_true _ _).mp hout
  have hlaunch : (managed tidy .sample (twoHosts "a.com" "b.org") .sample).Reaches (System.init w)
      ⟨Function.update (System.init w).thread 0 (.running w Service.offered),w⟩ :=
    .single (.launch rfl ⟨.offered,rfl⟩)
  have hmid := System.reaches_of_replay id hstep
    (Function.update_self 0 (.running w Service.offered) (System.init w).thread) hp
  rw [Function.update_idem] at hmid
  have hlast := System.finishes_of_replay id hstep (Function.update_self 0 (.running w p) (System.init w).thread) hv
  rw [Function.update_idem] at hlast
  refine ⟨_,_,hlaunch.trans hmid,⟨⟨w,p,by simp⟩,?_⟩,htmp,hlast,?_,hworks,?_⟩
  · exact Option.isSome_iff_exists.mp hguard
  · rintro t ⟨s₀,p',ht⟩
    simp only [Function.update_apply] at ht
    split at ht
    · cases ht
    · cases ht
  · cases answer with
    | error e => cases hok
    | ok answer => exact ⟨answer,by simp⟩

/-- A fill that is admitted, lives, and drops its guard. -/
theorem coordinated_of_reaches_retired : ∃ mid cfg,
    (managed False .sample (twoHosts "a.com" "b.org") .sample).Reaches (System.init .fresh) mid ∧ LiveFill mid 0 ∧
      Coordinated False .sample (twoHosts "a.com" "b.org") .sample mid ∧
      (managed False .sample (twoHosts "a.com" "b.org") .sample).Reaches mid cfg ∧ (∀ t, ¬ cfg.Running t) ∧
      Coordinated False .sample (twoHosts "a.com" "b.org") .sample cfg := by
  obtain ⟨mid,cfg,hmid,hlive,-,hlast,hidle,-⟩ := offered_served False (by decide +kernel : servedFrom .fresh = true)
  exact ⟨mid,cfg,hmid,hlive,coordinated_of_reaches rfl started_fresh hmid,hlast,hidle,
    coordinated_of_reaches rfl started_fresh (hmid.trans hlast)⟩

/-- Startup: nothing else runs, and the coordinator's memory is not touched. -/
def startSetting (t : ThreadId) : Setting Call Call.Ret World :=
  { Setting.alone (fun c w r w' => c.Does t w r w') with guar := SameMemory }

theorem guarded_startSetting : Guarded H False t (startSetting t) where
  does h := h
  rely h := .of_eq (by rw [show _ = _ from h])
  guar h := ⟨by rw [h.rest],by rw [h.rest],by rw [h.rest],by rw [h.rest]⟩
  drops ht _ _ _ _ _ := ht.elim
  store h hs := by
    obtain rfl : _ = _ := h
    exact ⟨hs,rfl,rfl⟩
  locking _ := ⟨rfl,rfl,rfl,rfl⟩
  unlocking _ := ⟨rfl,rfl,rfl,rfl⟩
  publishing _ _ _ := ⟨rfl,rfl,rfl,rfl⟩
  indexing _ _ _ _ := ⟨rfl,rfl,rfl,rfl⟩
  unindexing _ := ⟨rfl,rfl,rfl,rfl⟩
  unlinking _ _ := ⟨rfl,rfl,rfl,rfl⟩

/-- Nothing in memory or under `tmp/` yet. -/
structure Clean (w : World) : Prop where
  started : Started w
  tmp : w.tmp = ∅

theorem Clean.of_memory {w w' : World} (h : Clean w) (hm : SameMemory w w') (htmp : w'.tmp = w.tmp)
    (hwritten : w'.written = w.written) : Clean w' :=
  ⟨⟨hm.cache.trans h.started.cache,hm.mutex.trans h.started.mutex,hm.guards.trans h.started.guards,
    hm.admitted.trans h.started.admitted,fun t => by rw [hwritten,h.started.written]⟩,htmp.trans h.tmp⟩

theorem measured_startSetting : Measured H False t (startSetting t) fun _ => True where
  toGuarded := guarded_startSetting
  stable w w' hr _ := by
    obtain rfl : w = w' := hr
    exact ⟨trivial,rfl⟩
  setLock _ _ _ _ := trivial

theorem maintain_alone (hw : Clean w) :
    (c.maintain H).run.Holds (.alone fun c w r w' => c.Does 0 w r w') (fun out w' => Clean w' ∧
      (out = .ok () → w'.blobBytes ≤ c.policy.maxBytes)) w := by
  have hmaintain : (c.maintain H).run.Holds (startSetting 0) (fun out w' => Empty False 0 w' ∧
      (out = .ok () → w'.blobBytes ≤ c.policy.maxBytes)) w :=
    maintain_holds measured_startSetting (fun _ _ _ _ => trivial) trivial fun h => h.elim
  have hkept := (hmaintain.caused maintain_reclaims).keeping (A := Clean) (fun s s' hr hs => by
    obtain rfl : s = s' := hr
    exact hs) (fun s s' hg hs => by
    obtain ⟨hm,call,r,hcall,hstep⟩ := hg
    obtain ⟨htmp,hwritten⟩ := reclaims_files hcall hstep
    exact hs.of_memory hm htmp hwritten) hw
  exact (hkept.mono fun _ _ h => ⟨h.2,h.1.2⟩).weaken (fun _ _ h => h) (fun _ _ _ _ h => h)
    fun _ _ _ => trivial

/-- A coordinator that starts has brought the blobs within its budget. -/
theorem new_holds {ds : Datastore} {p : ServiceCachePolicy} (hw : Clean w) :
    (Coordinator.new H ds p).run.Holds (.alone fun c w r w' => c.Does 0 w r w') (fun out w' =>
      ∀ c, out = .ok c → c = ⟨ds,p⟩ ∧ p.validate = .ok () ∧ Clean w' ∧ w'.blobBytes ≤ p.maxBytes) w := by
  refine Program.Holds.except_bind (fun valid hvalid => ?_) (fun e he u hu => by simp)
  refine holds_io_bind fun u hu r u' hstep => ⟨trivial,?_⟩
  obtain rfl : w = u := hu
  obtain rfl := hstep.readOnly rfl
  cases r with
  | error e => exact fun v hv => by simp
  | ok sizes =>
    simp only
    split
    · exact fun v hv => by simp
    · refine Program.Holds.bind_run ((maintain_alone (c := ⟨ds,p⟩) hw).mono fun out v hv => ?_)
      cases out with
      | error e => simp
      | ok done =>
        intro x hx c hc
        obtain rfl : v = x := hx
        cases hc
        exact ⟨rfl,hvalid,hv.1,hv.2 rfl⟩

/-- The bytes under `blobs/` and `tmp/` never exceed what is retained and what is in flight,
and with no fill live what is retained. -/
theorem bytes_of_reaches {w₀ : World} {ds : Datastore} {p : ServiceCachePolicy}
    {events : List (Program.Event Call Call.Ret)} (hw : Clean w₀)
    (hnew : (Coordinator.new H ds p).run.Runs (fun c w r w' => c.Does 0 w r w') w₀ events (.ok c) w)
    (hr : (managed True H U c).Reaches (System.init w) cfg) :
    cfg.state.blobBytes+cfg.state.tmpBytes ≤ p.maxBytes+p.maxInflightBytes ∧
      ((∀ t, ¬ LiveFill cfg t) → cfg.state.cache.failed = none → cfg.state.mutex = none →
        cfg.state.blobBytes ≤ p.maxBytes) ∧
      ((∀ t, ¬ cfg.Running t) → cfg.state.cache.failed = none → cfg.state.blobBytes ≤ p.maxBytes) := by
  obtain ⟨rfl,hvalid,hclean,hbytes⟩ := (new_holds hw).of_runs hnew c rfl
  have hnone : ∀ id, w.tmp.lookup id = none := fun id => by
    rw [hclean.tmp]
    rfl
  have hspace : Space p w := by
    refine ⟨fun id file hl => ?_,fun e he => ?_,?_⟩
    · rw [hnone] at hl
      cases hl
    · rw [hclean.started.admitted] at he
      cases he
    · rw [tmpBytes_eq_zero hnone]
      exact hbytes.trans (Nat.le_add_right _ _)
  have hinit : (managedDiscipline True H U ⟨ds,p⟩).Sound (System.init w) :=
    sound_started hclean.started (fun t _ id file hl => by rw [hnone] at hl; cases hl) fun _ => hspace
  obtain ⟨hl,hs⟩ := ((managedDiscipline True H U ⟨ds,p⟩).sound_of_reaches hinit hr).inv
  have htotal := (hs trivial).total
  have hretained : cfg.state.guards = ∅ → cfg.state.cache.failed = none → cfg.state.mutex = none →
      cfg.state.blobBytes ≤ p.maxBytes := by
    intro hg hf hm
    rw [(hl.balanced hm hg hf).2] at htotal
    simp only [List.map_nil,List.sum_nil] at htotal
    exact (Nat.le_add_right _ _).trans htotal
  refine ⟨?_,fun hidle => hretained (guards_eq_empty_of_idle hinit hr hidle),fun hidle hf => ?_⟩
  · have hwithin := List.sum_le_sum (hs trivial).within
    have hreserved := hl.reserved
    have hinflight : cfg.state.cache.reserved ≤ p.maxInflightBytes := hl.inflight
    show cfg.state.blobBytes+cfg.state.tmpBytes ≤ _
    replace htotal : cfg.state.blobBytes+cfg.state.tmpBytes ≤ p.maxBytes+_ := htotal
    omega
  · refine hretained (guards_eq_empty_of_idle hinit hr fun t h => hidle t h.1) hf ?_
    by_contra hm
    obtain ⟨t,ht⟩ := Option.ne_none_iff_exists'.mp hm
    exact (released_of_reaches hinit hr (hidle t)).away ht

/-- A server that starts on an empty root, with a fill in flight and after it. -/
theorem bytes_of_reaches_retired : ∃ w mid cfg,
    (managed True .sample (twoHosts "a.com" "b.org") .sample).Reaches (System.init w) mid ∧ LiveFill mid 0 ∧
      mid.state.tmpBytes = 3 ∧ mid.state.blobBytes+mid.state.tmpBytes ≤ 0+32 ∧
      (managed True .sample (twoHosts "a.com" "b.org") .sample).Reaches mid cfg ∧ (∀ t, ¬ cfg.Running t) ∧
      cfg.state.blobBytes ≤ 0 := by
  have hstart : (Coordinator.new .sample Coordinator.sample.store .sample).run.replays
      (World.serve [0x61,0x62,0x63]) 50 .fresh (fun out w => out.isOk && servedFrom w) = true := by decide +kernel
  obtain ⟨events,out,w,hnew,hcheck⟩ := Program.runs_of_replays (serve_works [0x61,0x62,0x63]) hstart
  have hdoes : ∀ (c : Call) (w : World) (r : c.Ret) (w' : World), c.Works 0 w r w' → c.Does 0 w r w' :=
    fun _ _ _ _ h => .inl h
  replace hnew := hnew.mono hdoes
  obtain ⟨hok,hserved⟩ := Bool.and_eq_true_iff.mp hcheck
  obtain ⟨mid,cfg,hmid,hlive,htmp,hlast,hidle,hworks,-⟩ := offered_served True hserved
  cases out with
  | error e => cases hok
  | ok c =>
    have hclean : Clean .fresh := ⟨started_fresh,rfl⟩
    obtain ⟨rfl,-⟩ := (new_holds hclean).of_runs hnew c rfl
    exact ⟨w,mid,cfg,hmid,hlive,htmp,(bytes_of_reaches hclean hnew hmid).1,hlast,hidle,
      (bytes_of_reaches hclean hnew (hmid.trans hlast)).2.2 hidle hworks⟩

end coordinator
end StarfieldDatastore
