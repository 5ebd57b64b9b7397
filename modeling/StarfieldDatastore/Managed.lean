import StarfieldDatastore.Admission

/-! The programs of the managed server keep to its steps, so its books balance in every
state that it reaches. -/
namespace StarfieldDatastore
open Interleaving

/-- One thread of the managed server. -/
def serverSetting (tidy : Prop) (p : ServiceCachePolicy) (t : ThreadId) :
    Setting Call Call.Ret World where
  step call w r w' := (Ledger p w ∧ (tidy → Space p w)) ∧ call.Does t w r w' ∧
    (tidy → call.leaves r = false)
  rely := Apart t
  guar := ServerStep tidy p t
  rely_refl := .refl t
  rely_trans := .trans

/-- The same thread at work on the disk. -/
def workSetting (tidy : Prop) (p : ServiceCachePolicy) (t : ThreadId) :
    Setting Call Call.Ret World :=
  { serverSetting tidy p t with guar := fun w w' => SameMemory w w' ∧ ∀ u, u ≠ t → Frame u w w' }

/-- Thread `t` has a guard, and is not at the coordinator's state. -/
structure Filling (t : ThreadId) (limit : ℕ) (w : World) : Prop where
  guard : w.guards.lookup t = some limit
  away : w.mutex ≠ some t

/-- Thread `t` holds the state mutex over this state, with no guard live. -/
structure Maintaining (t : ThreadId) (state : CacheState) (w : World) : Prop where
  held : w.mutex = some t
  state : w.cache = state
  quiescent : w.guards = ∅

section settings
variable {tidy : Prop} {H : Sha256} {U : UrlCrate} {p : ServiceCachePolicy} {t : ThreadId}
  {w w' : World} {limit : ℕ} {state : CacheState}

theorem guarded_workSetting : Guarded H tidy t (workSetting tidy p t) where
  does h := h.2.1
  rely h := h.frame.tmp
  guar h := ⟨⟨by rw [h.rest],by rw [h.rest],by rw [h.rest],by rw [h.rest]⟩,
    fun _ hu => .of_private h hu⟩
  drops ht _ _ _ _ h := by cases h.2.2 ht
  store h hs := ⟨(h.frame.locks _).mpr hs,h.frame.store hs⟩
  locking hn := ⟨⟨rfl,rfl,rfl,rfl⟩,(Promise.setLock (H := H) (.inl hn) (.inr rfl)).frame⟩
  unlocking ho := ⟨⟨rfl,rfl,rfl,rfl⟩,(Promise.setLock (H := H) (.inr ho) (.inl rfl)).frame⟩
  publishing hs hl _ := ⟨⟨rfl,rfl,rfl,rfl⟩,fun u hu => .of_store hs hu rfl (.erase hu (fun old ho => by
    rw [hl] at ho
    cases ho
    rfl) rfl)⟩
  indexing hs _ _ _ := ⟨⟨rfl,rfl,rfl,rfl⟩,fun u hu => .of_store hs hu rfl (.of_eq rfl)⟩
  unindexing hs := ⟨⟨rfl,rfl,rfl,rfl⟩,fun u hu => .of_store hs hu rfl (.of_eq rfl)⟩
  unlinking hs _ := ⟨⟨rfl,rfl,rfl,rfl⟩,fun u hu => .of_store hs hu rfl (.of_eq rfl)⟩

theorem Filling.stable (h : Filling t limit w) (hw : Apart t w w') : Filling t limit w' :=
  ⟨hw.guard.trans h.guard,fun hm => h.away (hw.mutex.mp hm)⟩

theorem Filling.of_memory (h : Filling t limit w) (hw : SameMemory w w') : Filling t limit w' :=
  ⟨hw.guards ▸ h.guard,hw.mutex ▸ h.away⟩

theorem Maintaining.stable (h : Maintaining t state w) (hw : Apart t w w') :
    Maintaining t state w' := by
  obtain ⟨hc,hg,-⟩ := hw.held h.held
  exact ⟨hw.mutex.mpr h.held,hc.trans h.state,hg.trans h.quiescent⟩

theorem Maintaining.of_memory (h : Maintaining t state w) (hw : SameMemory w w') :
    Maintaining t state w' :=
  ⟨hw.mutex.trans h.held,hw.cache.trans h.state,hw.guards.trans h.quiescent⟩

/-- A program under `interruptible`, in a setting that keeps `A`: unwinding may happen
wherever `A` holds. -/
theorem interruptible_holds {α : Type} {E : Setting Call Call.Ret World} {A R : World → Prop}
    {Q : α → World → Prop} {prog : Prog α} (hA : ∀ w w', E.rely w w' → A w → A w')
    (hguar : ∀ w w', E.guar w w' → A w')
    (hpanics : ∀ w b w', A w → E.step (.cache .panics) w b w' → E.guar w w' ∧ w' = w)
    (hunwind : ∀ w r w', A w → E.step (.cache .unwind) w r w' →
      E.guar w w' ∧ ∀ w'', E.rely w' w'' → R w'')
    (hw : A w) (h : prog.Holds E Q w) :
    (interruptible prog).Holds E (fun r w => match r with
      | some a => A w ∧ Q a w
      | none => R w) w := by
  have thrown : ∀ u, A u → (do
      cache .unwind
      return none : Prog (Option α)).Holds E (fun r w => match r with
        | some a => A w ∧ Q a w
        | none => R w) u := fun u hu =>
    Program.Holds.perform_bind fun v hv r v' hstep => hunwind v r v' (hA u v hv hu) hstep
  induction prog generalizing w with
  | done a =>
    refine Program.Holds.perform_bind fun u hu b u' hstep => ?_
    obtain ⟨hg,rfl⟩ := hpanics u b u' (hA w u hu hw) hstep
    refine ⟨hg,?_⟩
    cases b with
    | true => exact thrown u' (hA w u' hu hw)
    | false => exact fun v hv => ⟨hA _ _ hv (hA _ _ hu hw),h v (E.rely_trans hu hv)⟩
  | call c next ih =>
    refine Program.Holds.perform_bind fun u hu b u' hstep => ?_
    obtain ⟨hg,rfl⟩ := hpanics u b u' (hA w u hu hw) hstep
    refine ⟨hg,?_⟩
    cases b with
    | true => exact thrown u' (hA w u' hu hw)
    | false =>
      intro v hv r v' hstep
      obtain ⟨hg,hn⟩ := h v (E.rely_trans hu hv) r v' hstep
      exact ⟨hg,ih r (hguar v v' hg) hn⟩

end settings

section fill
variable {tidy : Prop} {H : Sha256} {U : UrlCrate} {c : Coordinator} {t : ThreadId}
  {w w' : World} {limit : ℕ} {artifact : Artifact}

theorem getLimited_spends {ds : Datastore} :
    (ds.getLimited H U artifact limit).run.Spends Event.appended limit := by
  intro events h
  have hstart : Metered limit [] := ⟨by simp [appendedBy],.of_le (by simp [offeredBy])⟩
  have hlog : Metered limit events := by simpa using (getLimited_ends limit).log_of_trace hstart h
  exact hlog.appended

theorem spends_plain {α : Type} {prog : Prog α} (h : prog.Only fun c => c.plain = true) :
    prog.Spends Event.appended 0 := .of_only (h.mono fun _ hc r => (Event.plain_of hc r).2)

/-- Whatever a fill is told about sizes, it writes no more than its limit. -/
theorem fill_spends : (Service.fill H U c artifact limit).run.Spends Event.appended limit := by
  have hresolve : (Service.resolveMiss H U c artifact limit).run.Spends Event.appended limit := by
    have hasked : (ExceptT.mk (net (.objectHead artifact.key))).run.Only fun c => c.plain = true :=
      .perform rfl
    refine (Program.Spends.bind_run (n := limit) (spends_plain hasked) fun found => ?_).mono
      (Nat.zero_add limit).le
    cases found with
    | some info =>
      intro events h
      cases h
      exact Nat.zero_le _
    | none =>
      refine Program.Spends.bind_run (n := 0) getLimited_spends fun path => ?_
      refine spends_plain (.bind_run (.lift (entry_only rfl fun _ => rfl)) fun entry => ?_)
      cases entry with
      | none => trivial
      | some entry => exact .bind_run (.perform rfl) fun _ => trivial
  exact Program.Spends.bind_run (n := 0) hresolve fun info => spends_plain (redirect_only info rfl)

theorem entry_holds {E : Setting Call Call.Ret World} {ds : Datastore} {key : ArtifactKey}
    (hE : Sheltered tidy t E) (hw : Empty tidy t w) :
    (ds.entry key).Holds E (fun _ w' => Empty tidy t w') w :=
  hE.holds_readOnly (entry_only rfl fun _ => rfl) (fun _ _ hr hs => hs.stable (hE.rely hr)) hw

/-- A fill leaves no temporary file behind. -/
theorem fill_holds {E : Setting Call Call.Ret World} (hE : Guarded H tidy t E)
    (hw : Empty tidy t w) :
    (Service.fill H U c artifact limit).run.Holds E (fun _ w' => Empty tidy t w') w := by
  have quietly : ∀ {α : Type} {prog : Prog α} {u : World}, Empty tidy t u →
      (prog.Only fun c => c.readOnly = true) → prog.Holds E (fun _ u' => Empty tidy t u') u :=
    fun hu hp => hE.holds_readOnly hp (fun _ _ hr hs => hs.stable (hE.rely hr)) hu
  refine Program.Holds.bind_run (Program.Holds.bind_run ((quietly hw (.perform rfl)).mono
    fun found u hu => ?_))
  match found with
  | .error e => exact hu
  | .ok (some info) => exact fun v hv => quietly (hu.stable (hE.rely hv)) (redirect_only info rfl)
  | .ok none =>
    refine Program.Holds.bind_run ((getLimited_holds hE limit hu).mono fun out v hv => ?_)
    cases out with
    | error e => exact hv.1
    | ok path =>
      refine Program.Holds.bind_run (Program.Holds.bind ((entry_holds hE.toSheltered hv.1).mono
        fun entry x hx y hy => ?_))
      replace hx := hx.stable (hE.rely hy)
      cases entry with
      | none => exact fun z hz => hx.stable (hE.rely hz)
      | some entry =>
        refine Program.Holds.bind_run ((quietly hx (.perform rfl)).mono fun out z hz => ?_)
        cases out with
        | error e => exact hz
        | ok outcome =>
          exact fun z' hz' => quietly (hz.stable (hE.rely hz')) (redirect_only _ rfl)

/-- The thread of a fill. -/
def fillSetting (tidy : Prop) (p : ServiceCachePolicy) (t : ThreadId) (limit : ℕ) :
    Setting Call Call.Ret World :=
  { serverSetting tidy p t with
    guar := fun w w' => ServerStep tidy p t w w' ∧ Filling t limit w' }

theorem fill_server (hf : Filling t limit w) (hw : Empty tidy t w) (hwritten : w.written t = 0) :
    (Service.fill H U c artifact limit).run.Holds (fillSetting tidy c.policy t limit)
      (fun _ w' => Empty tidy t w') w := by
  have hfill : (Service.fill H U c artifact limit).run.Holds (workSetting tidy c.policy t)
      (fun _ w' => Empty tidy t w') w := fill_holds guarded_workSetting hw
  have hspent := (hfill.caused (fill_fills limit)).spending fill_spends
    (fun call s r s' hs => written_le hs.2.1) (fun s s' hr => Apart.written hr)
    (Nat.le_of_eq (by omega) : w.written t+limit ≤ limit)
  have hkept := hspent.keeping (fun s s' hr hs => Filling.stable hs hr)
    (fun s s' hg hs => Filling.of_memory hs hg.1.1.1) hf
  refine (hkept.mono fun _ _ h => h.1).weaken (fun _ _ h => h) (fun _ _ _ _ h => h) ?_
  rintro s s' ⟨⟨⟨⟨hm,hframe⟩,call,r,hcall,hstep⟩,hle⟩,hs,hs'⟩
  exact ⟨.fill limit call r hcall hstep.2.1 hs.guard hle hframe,hs'⟩

end fill
section threads
variable {tidy : Prop} {H : Sha256} {U : UrlCrate} {p : ServiceCachePolicy} {c : Coordinator}
  {t : ThreadId} {w w' : World} {limit : ℕ} {state : CacheState} {artifact : Artifact}

/-- A worker in a setting in which its own steps keep `B`. -/
theorem interruptible_server {α : Type} {B : World → Prop} {Q : α → World → Prop} {prog : Prog α}
    (hB : ∀ w w', Apart t w w' → B w → B w')
    (hunwind : ∀ w, B w → B ((w.dropOwned t).release t)) (hw : B w)
    (h : prog.Holds { serverSetting tidy p t with
      guar := fun w w' => ServerStep tidy p t w w' ∧ B w' } Q w) :
    (interruptible prog).Holds (serverSetting tidy p t) (fun r w => B w ∧ match r with
      | some a => Q a w
      | none => Empty tidy t w) w := by
  refine Program.Holds.weaken (Program.Holds.mono (interruptible_holds
    (E := { serverSetting tidy p t with guar := fun w w' => ServerStep tidy p t w w' ∧ B w' })
    (A := B) (R := fun w => B w ∧ Empty tidy t w) hB (fun _ _ hg => hg.2)
    (fun u b u' hu hstep => ?_) (fun u r u' hu hstep => ?_) hw h) ?_)
    (fun _ _ h => h) (fun _ _ _ _ h => h) fun _ _ h => h.1
  · obtain rfl := hstep.2.1.panics
    exact ⟨⟨.idle rfl,hu⟩,rfl⟩
  · obtain rfl := hstep.2.1.unwind
    have hempty : Empty tidy t ((u.dropOwned t).release t) := fun _ id file hl =>
      ((World.lookup_unwound id file).mp hl).2
    exact ⟨⟨.unwind rfl,hunwind u hu⟩,fun v hv =>
      ⟨hB _ _ hv (hunwind u hu),hempty.stable hv.frame.tmp⟩⟩
  · rintro (_ | a) v hv
    · exact hv
    · exact hv

/-- Thread `t` has not been admitted, and holds nothing. -/
structure Fresh (tidy : Prop) (t : ThreadId) (w : World) : Prop where
  guard : w.guards.lookup t = none
  unknown : ∀ l, (t,l) ∉ w.admitted
  unwritten : w.written t = 0
  away : w.mutex ≠ some t
  empty : Empty tidy t w

theorem Fresh.stable (h : Fresh tidy t w) (hw : Apart t w w') : Fresh tidy t w' :=
  ⟨hw.guard.trans h.guard,fun l hl => h.unknown l (hw.admitted l hl),hw.written.trans h.unwritten,
    fun hm => h.away (hw.mutex.mp hm),h.empty.stable hw.frame.tmp⟩

theorem Fresh.unwound (h : Fresh tidy t w) : Fresh tidy t ((w.dropOwned t).release t) :=
  ⟨h.guard,h.unknown,h.unwritten,h.away,fun _ id file hl => ((World.lookup_unwound id file).mp hl).2⟩

/-- Thread `t` holds neither a guard nor the state mutex. -/
structure Released (t : ThreadId) (w : World) : Prop where
  guard : w.guards.lookup t = none
  away : w.mutex ≠ some t

theorem Released.stable (h : Released t w) (hw : Apart t w w') : Released t w' :=
  ⟨hw.guard.trans h.guard,fun hm => h.away (hw.mutex.mp hm)⟩

theorem Fresh.released (h : Fresh tidy t w) : Released t w := ⟨h.guard,h.away⟩

/-- At the state mutex, with the state as it may be left. -/
structure AtState (tidy : Prop) (t : ThreadId) (w : World) : Prop where
  held : w.mutex = some t
  balanced : Balanced w
  unwritten : w.written t = 0
  empty : Empty tidy t w

theorem Balanced.stable (h : Balanced w) (hm : w.mutex = some t) (hw : Apart t w w') :
    Balanced w' := by
  obtain ⟨hc,hg,ha⟩ := hw.held hm
  intro hg' hf
  rw [hc] at hf ⊢
  rw [ha]
  exact h (hg ▸ hg') hf

theorem AtState.stable (h : AtState tidy t w) (hw : Apart t w w') : AtState tidy t w' :=
  ⟨hw.mutex.mpr h.held,h.balanced.stable h.held hw,hw.written.trans h.unwritten,
    h.empty.stable hw.frame.tmp⟩

theorem checkedAdd_eq {a b n : ℕ} (h : checkedAdd a b = some n) : n = a+b := by
  unfold checkedAdd at h
  split at h
  · exact (Option.some.inj h).symm
  · cases h

/-- Under the mutex an admission that succeeds creates the guard, and one that fails
changes nothing. -/
theorem admitLocked_holds (hw : AtState tidy t w) (hg : w.guards.lookup t = none)
    (hu : ∀ l, (t,l) ∉ w.admitted) :
    (c.admitLocked limit).run.Holds (serverSetting tidy c.policy t) (fun out w' => AtState tidy t w' ∧
      w'.guards.lookup t = out.toOption.map fun _ => limit) w := by
  have refused : ∀ (e : DatastoreError) u, AtState tidy t u → u.guards.lookup t = none →
      (throw e : Op Unit).run.Holds (serverSetting tidy c.policy t) (fun out w' => AtState tidy t w' ∧
        w'.guards.lookup t = out.toOption.map fun _ => limit) u :=
    fun e u hu hg v hv => ⟨hu.stable hv,hv.guard.trans hg⟩
  refine Program.Holds.bind_run (Program.Holds.perform_bind fun u hwu state u' hstep => ?_)
  obtain ⟨rfl,rfl⟩ := hstep.2.1.readState
  refine ⟨.idle rfl,fun v huv => ?_⟩
  replace huv := hwu.trans huv
  replace hg : v.guards.lookup t = none := huv.guard.trans hg
  replace hu : ∀ l, (t,l) ∉ v.admitted := fun l hl => hu l (huv.admitted l hl)
  have hstate : v.cache = u'.cache := by
    rw [(huv.held hw.held).1,(hwu.held hw.held).1]
  replace hw := hw.stable huv
  rw [← hstate]
  clear hstate hwu huv hstep
  cases hfailed : v.cache.failed with
  | some reason =>
    simp only [hfailed]
    exact refused _ v hw hg
  | none =>
    simp only [hfailed]
    split
    · exact refused _ v hw hg
    · rename_i hopen
      simp only [ge_iff_le,Bool.or_eq_true,decide_eq_true_eq,not_or,Bool.not_eq_true,not_le] at hopen
      split
      · exact refused _ v hw hg
      · rename_i reserved hreserved
        obtain ⟨hsum,hroom⟩ := Option.filter_eq_some_iff.mp hreserved
        split
        · exact refused _ v hw hg
        · rename_i required hrequired
          refine holds_io_bind fun x hx r x' hstep => ?_
          obtain rfl := hstep.2.1.readOnly rfl
          refine ⟨.idle rfl,?_⟩
          cases r with
          | error e => exact fun y hy => ⟨(hw.stable hx).stable hy,hy.guard.trans (hx.guard.trans hg)⟩
          | ok space =>
            simp only
            split
            · exact refused _ x' (hw.stable hx) (hx.guard.trans hg)
            · intro y hy r y' hstep
              replace hx := Apart.trans hx hy
              have hy := hw.stable hx
              have hc := (hx.held hw.held).1
              have hy' := hstep.2.1.writeState
              have husize := c.policy.usize
              have hadmission : ServerStep tidy c.policy t y y' := by
                refine .admission limit hy.held (by rw [hc,hfailed]) (by rw [hc,hopen.1])
                  (by rw [hc]; exact hopen.2) ?_ (hx.guard.trans hg)
                  (fun l hl => hu l (hx.admitted l hl)) hy.unwritten ?_
                · rw [hc,← checkedAdd_eq hsum]
                  exact of_decide_eq_true hroom
                · rw [hy',← hc,increment,Nat.mod_eq_of_lt (by rw [hc]; omega)]
                  rw [← hc] at hsum
                  rw [checkedAdd_eq hsum]
                  rfl
              have hafter : AtState tidy t y' ∧ y'.guards.lookup t = some limit := by
                rw [hy']
                refine ⟨⟨hy.held,fun hnone => ?_,hy.unwritten,hy.empty⟩,AList.lookup_insert _⟩
                have := AList.lookup_insert (b := limit) y.guards (a := t)
                rw [show y.guards.insert t limit = ∅ from hnone] at this
                cases this
              exact ⟨hadmission,fun z hz => ⟨hafter.1.stable hz,hz.guard.trans hafter.2⟩⟩

/-- An admission that succeeds leaves the thread with a guard and away from the mutex, and
one that fails leaves it with nothing. -/
theorem admit_holds (expected : Option ℕ) (hw : Fresh tidy t w) :
    (c.admitFill expected).run.Holds (serverSetting tidy c.policy t) (fun out w' => match out with
      | .ok limit => Filling t limit w' ∧ w'.written t = 0 ∧ Empty tidy t w'
      | .error _ => Released t w') w := by
  unfold Coordinator.admitFill
  simp only
  split
  · exact fun u hu => hw.released.stable hu
  · refine Program.Holds.perform_bind fun u hu r u' hstep => ?_
    replace hu := hw.stable hu
    rcases hstep.2.1.tryLockState with ⟨rfl,hfree,rfl⟩ | ⟨rfl,-,rfl⟩
    · refine ⟨.lock hfree rfl,Program.Holds.bind (Program.Holds.mono (admitLocked_holds
        ⟨rfl,hstep.1.1.balanced hfree,hu.unwritten,hu.empty⟩ hu.guard hu.unknown) ?_)⟩
      rintro out v ⟨hv,hguard⟩
      refine Program.Holds.perform_bind fun x hvx r x' hstep => ?_
      have hx := hv.stable hvx
      obtain rfl := hstep.2.1.unlockState hx.held
      refine ⟨.unlock hx.held hx.balanced rfl,fun y hy => ?_⟩
      cases out with
      | error e =>
        have hreleased : Released t { x with mutex := none } := ⟨hvx.guard.trans hguard,by simp⟩
        exact hreleased.stable hy
      | ok done =>
        have hfilling : Filling t (expected.getD c.policy.maxArtifactBytes) { x with mutex := none } :=
          ⟨hvx.guard.trans hguard,by simp⟩
        exact ⟨hfilling.stable hy,hy.written.trans hx.unwritten,Empty.stable hx.empty hy.frame.tmp⟩
    · exact ⟨.idle rfl,fun v hv => hu.released.stable hv⟩

theorem sum_blobs (w : World) :
    ((((w.blobs.entries.map fun e => (e.1,e.2.length)).filter fun e => isDigest e.1).insertionSort
      fun a b => a.1 ≤ b.1).map Prod.snd).sum = w.blobBytes := by
  rw [((List.perm_insertionSort _ _).map Prod.snd).sum_eq,World.blobBytes,AList.weight]
  induction w.blobs.entries with
  | nil => rfl
  | cons e l ih =>
    simp only [List.map_cons,List.filter_cons,List.sum_cons]
    split
    · simp only [List.map_cons,List.sum_cons,ih]
    · rw [ih,Nat.zero_add]

section maintain
variable {E : Setting Call Call.Ret World} {A : World → Prop} {ds : Datastore}

/-- A setting in which what the others keep includes the blobs. -/
structure Measured (H : Sha256) (tidy : Prop) (t : ThreadId) (E : Setting Call Call.Ret World)
    (A : World → Prop) : Prop extends Guarded H tidy t E where
  stable : ∀ w w', E.rely w w' → A w → A w' ∧ w'.blobs = w.blobs
  setLock : ∀ w name o, A w → A (w.setLock name o)

/-- While nobody fills, what is measured is what is there. -/
theorem blobBytes_holds (hE : Measured H tidy t E A) (hw : A w) :
    Datastore.blobBytes.run.Holds E (fun out w' => A w' ∧ ∀ n, out = .ok n → w'.blobBytes = n) w := by
  have hmeasured : ∀ (out : Except DatastoreError ℕ) s s', E.rely s s' →
      (A s ∧ ∀ n, out = .ok n → s.blobBytes = n) → A s' ∧ ∀ n, out = .ok n → s'.blobBytes = n := by
    intro out s s' hr hs
    obtain ⟨hA,hblobs⟩ := hE.stable s s' hr hs.1
    refine ⟨hA,fun n hn => ?_⟩
    rw [World.blobBytes,hblobs]
    exact hs.2 n hn
  refine withLock_holds hE.toGuarded (fun s s' hr hs => (hE.stable s s' hr hs).1) hE.setLock hmeasured
    (fun _ s name o hs => ⟨hE.setLock s name o hs.1,hs.2⟩) (fun _ _ hs => ⟨hs,by simp⟩)
    (fun s hs _ => ?_) hw
  refine Program.Holds.bind_run (Program.Holds.bind_run (holds_io fun u hu r u' hstep => ?_))
  have hlist := fun out (h : r = .ok out) => (hE.does (h ▸ hstep)).listBlobs
  obtain ⟨hg,rfl⟩ := hE.readOnly rfl hstep
  refine ⟨hg,fun v hv => ?_⟩
  replace hu := (hE.stable s u' hu hs).1
  cases r with
  | error e => exact ⟨(hE.stable u' v hv hu).1,by simp⟩
  | ok found =>
    rw [hlist found rfl]
    intro x hx
    simp only [sum_blobs]
    split
    · exact fun y hy => hmeasured (.ok u'.blobBytes) u' y (E.rely_trans hv (E.rely_trans hx hy))
        ⟨hu,fun n hn => Except.ok.inj hn⟩
    · exact fun y hy => ⟨(hE.stable u' y (E.rely_trans hv (E.rely_trans hx hy)) hu).1,by simp⟩

/-- A maintenance that succeeds leaves no more than the retained budget. -/
theorem maintain_holds (hE : Measured H tidy t E A) (hkept : ∀ w w', E.guar w w' → A w → A w')
    (hw : A w) (hempty : Empty tidy t w) :
    (c.maintain H).run.Holds E (fun out w' => Empty tidy t w' ∧
      (out = .ok () → w'.blobBytes ≤ c.policy.maxBytes)) w := by
  have hboth : Measured H tidy t E fun w => A w ∧ Empty tidy t w :=
    { hE with
      stable := fun w w' hr h => ⟨⟨(hE.stable w w' hr h.1).1,h.2.stable (hE.rely hr)⟩,
        (hE.stable w w' hr h.1).2⟩
      setLock := fun w name o h => ⟨hE.setLock w name o h.1,h.2.setLock⟩ }
  refine Program.Holds.bind_run ((blobBytes_holds hboth ⟨hw,hempty⟩).mono fun out u hu => ?_)
  cases out with
  | error e => exact ⟨hu.1.2,by simp⟩
  | ok before =>
    have hgc : (c.store.gc H c.policy.maxBytes).run.Holds E (fun _ w' => Empty tidy t w') u :=
      gc_holds hE.toGuarded c.policy.maxBytes hu.1.2
    replace hgc : (c.store.gc H c.policy.maxBytes).run.Holds E (fun _ w' => Empty tidy t w' ∧ A w') u :=
      (hgc.keeping (fun s s' hr hs => (hE.stable s s' hr hs).1) hkept hu.1.1).weaken (fun _ _ h => h)
        (fun _ _ _ _ h => h) fun _ _ h => h.1
    refine Program.Holds.bind_run (hgc.mono fun out v hv => ?_)
    cases out with
    | error e => exact ⟨hv.1,by simp⟩
    | ok removed =>
      refine Program.Holds.bind_run ((blobBytes_holds hboth hv.symm).mono fun out x hx => ?_)
      cases out with
      | error e => exact ⟨hx.1.2,by simp⟩
      | ok after =>
        have hafter := hx.2 after rfl
        simp only
        split
        · exact fun y hy => ⟨hx.1.2.stable (hE.rely hy),by simp⟩
        · rename_i hle
          refine fun y hy => ⟨hx.1.2.stable (hE.rely hy),fun _ => ?_⟩
          rw [World.blobBytes,(hE.stable x y hy hx.1.1).2,← World.blobBytes,hafter]
          exact not_lt.mp hle

end maintain

theorem measured_workSetting :
    Measured H tidy t (workSetting tidy p t) (Maintaining t state) where
  toGuarded := guarded_workSetting
  stable _ _ hr hs := ⟨hs.stable hr,hr.quiescent hs.held hs.quiescent⟩
  setLock _ _ _ hs := hs.of_memory ⟨rfl,rfl,rfl,rfl⟩

/-- The maintenance of the last guard, within the steps of the server. -/
theorem maintain_server (hm : Maintaining t state w) (hclosed : state.maintenance = true)
    (hw : Empty tidy t w) :
    (c.maintain H).run.Holds { serverSetting tidy p t with
        guar := fun w w' => ServerStep tidy p t w w' ∧ Maintaining t state w' }
      (fun out w' => Empty tidy t w' ∧ (out = .ok () → w'.blobBytes ≤ c.policy.maxBytes)) w := by
  have hmaintain := (maintain_holds (H := H) (c := c) (measured_workSetting (p := p))
    (fun _ _ hg hs => hs.of_memory hg.1) hm hw).caused maintain_reclaims
  have hkept := hmaintain.keeping (fun s s' hr hs => Maintaining.stable hs hr)
    (fun s s' hg hs => Maintaining.of_memory hs hg.1.1) hm
  refine (hkept.mono fun _ _ h => h.1).weaken (fun _ _ h => h) (fun _ _ _ _ h => h) ?_
  rintro s s' ⟨⟨⟨-,hframe⟩,call,r,hcall,hstep⟩,hs,hs'⟩
  exact ⟨.reclaim call r hcall hstep.2.1 hs.held (hs.state ▸ hclosed) hs.quiescent hframe,hs'⟩

theorem unlock_holds (hm : w.mutex = some t) (hg : w.guards.lookup t = none)
    (hb : ∀ w', Apart t w w' → Balanced w') :
    (cache .unlockState).Holds (serverSetting tidy p t) (fun _ => Released t) w := by
  intro u hu r u' hstep
  have held := hu.mutex.mpr hm
  obtain rfl := hstep.2.1.unlockState held
  have hreleased : Released t { u with mutex := none } := ⟨hu.guard.trans hg,by simp⟩
  exact ⟨.unlock held (hb u hu) rfl,fun v hv => hreleased.stable hv⟩

theorem decrement_eq {n : ℕ} (hpos : 0 < n) (h : n < 2^64) : decrement n = n-1 := by
  unfold decrement
  omega

theorem guards_eq_empty (h : w.guards.entries.length = 0) : w.guards = ∅ :=
  AList.ext (List.length_eq_zero_iff.mp h)

/-- With the fill retired the mutex is given back at once, or after the maintenance of the
last fill has settled the books. -/
theorem drain_holds (hm : w.mutex = some t) (hc : w.cache = state) (hw : Empty tidy t w)
    (hg : w.guards.lookup t = none)
    (hactive : state.active = w.guards.entries.length) (hclosed : state.maintenance = true)
    (hworks : state.failed = none) :
    (c.drain H state).Holds (serverSetting tidy c.policy t) (fun _ => Released t) w := by
  unfold Coordinator.drain
  split
  · rename_i hne
    refine unlock_holds hm hg fun u hu hnone => absurd ?_ hne
    rw [hactive,← (hu.held hm).2.1,hnone]
    rfl
  · rename_i hzero
    have hmaintaining : Maintaining t state w :=
      ⟨hm,hc,guards_eq_empty (hactive.symm.trans (not_not.mp hzero))⟩
    refine Program.Holds.bind ((interruptible_server (fun _ _ hr hs => hs.stable hr)
      (fun _ hs => ⟨hs.held,hs.state,hs.quiescent⟩) hmaintaining
      (maintain_server (H := H) (c := c) hmaintaining hclosed hw)).mono ?_)
    rintro result u ⟨hu,hresult⟩
    refine Program.Holds.perform_bind fun v hv r v' hstep => ?_
    have hretained : ∀ h : result = some (.ok ()), v.blobBytes ≤ c.policy.maxBytes := by
      rintro rfl
      rw [World.blobBytes,hv.quiescent hu.held hu.quiescent]
      exact hresult.2 rfl
    obtain rfl := hstep.2.1.writeState
    replace hu := hu.stable hv
    have after : ∀ {x : World}, x.mutex = some t → x.guards = ∅ → Balanced x →
        (cache .unlockState).Holds (serverSetting tidy c.policy t) (fun _ => Released t) x := by
      intro x hx hnone hb
      refine unlock_holds hx ?_ fun y hy => hb.stable hx hy
      rw [hnone]
      rfl
    have broken : ∀ reason, ServerStep tidy c.policy t v
        { v with cache := { state with failed := some reason } } := fun reason =>
      .failed reason hu.held hu.quiescent (hu.state ▸ hclosed) (hu.state ▸ hworks) (by rw [hu.state])
    rcases result with _ | e | ⟨⟨⟩⟩
    · exact ⟨broken _,after hu.held hu.quiescent fun _ hf => by cases hf⟩
    · exact ⟨broken _,after hu.held hu.quiescent fun _ hf => by cases hf⟩
    · refine ⟨.maintained hu.held hu.quiescent (hu.state ▸ hclosed) (hu.state ▸ hworks)
        (hretained rfl) ?_,after hu.held hu.quiescent fun _ _ => ⟨rfl,rfl⟩⟩
      rw [hu.state]
      rfl

/-- Dropping a guard retires its fill. -/
theorem finish_holds (hf : Filling t limit w) (hw : Empty tidy t w) :
    (c.finish H).Holds (serverSetting tidy c.policy t) (fun _ => Released t) w := by
  refine Program.Holds.perform_bind fun u hu r u' hstep => ?_
  obtain ⟨hfree,rfl⟩ := hstep.2.1.lockState
  refine ⟨.lock hfree rfl,Program.Holds.perform_bind fun v hv state v' hread => ?_⟩
  obtain ⟨rfl,rfl⟩ := hread.2.1.readState
  have hguard : v'.guards.lookup t = some limit := hv.guard.trans (hf.stable hu).guard
  replace hw : Empty tidy t v' := Empty.stable (hw.stable hu.frame.tmp) hv.frame.tmp
  have held : v'.mutex = some t := hv.mutex.mpr rfl
  have hworks : v'.cache.failed = none := by
    by_contra hfailed
    rw [(hread.1.1.failed hfailed).1] at hguard
    cases hguard
  have hactive := hread.1.1.active
  have hlen := length_erase hguard
  have hdec : decrement v'.cache.active = v'.cache.active-1 := by
    have := hread.1.1.concurrent
    have := c.policy.usize
    exact decrement_eq (by omega) (by omega)
  refine ⟨.idle rfl,?_⟩
  simp only
  rw [hdec]
  refine Program.Holds.perform_bind fun x hx r x' hstep => ?_
  obtain ⟨hc,hg,-⟩ := hx.held held
  replace held := hx.mutex.mpr held
  replace hw := hw.stable hx.frame.tmp
  obtain rfl := hstep.2.1.writeState
  refine ⟨.retire limit held (hx.guard.trans hguard) hw (by rw [hc]; rfl),?_⟩
  refine drain_holds (w := World.mk _ _ _ _ _ _ _ _ _ _) held rfl hw (AList.lookup_erase _ _) ?_ rfl hworks
  show v'.cache.active-1 = (x.guards.erase t).entries.length
  rw [hg]
  omega

theorem hit_readOnly : (Service.hit artifact).run.Only fun c => c.readOnly = true := by
  refine .bind_run (?_ : (Service.head artifact).run.Only _) fun found => ?_
  · unfold Service.head
    split
    · trivial
    · exact .perform rfl
  · cases found with
    | none => trivial
    | some info => exact .bind_run (redirect_only info rfl) fun _ => trivial

theorem hit_server (hw : Fresh tidy t w) :
    (Service.hit artifact).run.Holds { serverSetting tidy p t with
      guar := fun w w' => ServerStep tidy p t w w' ∧ Fresh tidy t w' } (fun _ _ => True) w := by
  refine (Program.Holds.of_only (A := Fresh tidy t) hit_readOnly (fun s s' hr hs => hs.stable hr)
    (fun call s r s' hc hs hstep => ?_) hw).mono fun _ _ _ => trivial
  obtain rfl := hstep.2.1.readOnly hc
  exact ⟨⟨.idle rfl,hs⟩,hs⟩

/-- A miss is admitted, filled and completed, whatever goes wrong on the way. -/
theorem coldFill_holds (hw : Fresh tidy t w) : (Service.coldFill H U c artifact).Holds
    (serverSetting tidy c.policy t) (fun _ => Released t) w := by
  refine Program.Holds.bind ((admit_holds artifact.expectedBytes hw).mono fun out u hu => ?_)
  cases out with
  | error e => exact fun _ hv => hu.stable hv
  | ok limit =>
    obtain ⟨hf,hwritten,hempty⟩ := hu
    refine Program.Holds.bind ((interruptible_server (fun _ _ hr hs => Filling.stable hs hr)
      (fun _ hs => ⟨hs.guard,hs.away⟩) hf (fill_server hf hempty hwritten)).mono ?_)
    rintro result v ⟨hv,hresult⟩
    have hempty : Empty tidy t v := by
      cases result with
      | none => exact hresult
      | some result => exact hresult
    exact Program.Holds.bind ((finish_holds hv hempty).mono fun _ _ hreleased _ hx => hreleased.stable hx)

theorem service_holds (hw : Fresh tidy t w) : (Service.request H U c artifact).Holds
    (serverSetting tidy c.policy t) (fun _ => Released t) w := by
  refine Program.Holds.bind ((interruptible_server (fun _ _ hr hs => Fresh.stable hs hr)
    (fun _ hs => hs.unwound) hw (hit_server hw)).mono ?_)
  rintro result u ⟨hu,-⟩
  match result with
  | none => exact fun _ hv => hu.released.stable hv
  | some (.error e) => exact fun _ hv => hu.released.stable hv
  | some (.ok (some found)) => exact fun _ hv => hu.released.stable hv
  | some (.ok none) => exact coldFill_holds hu

/-- Every thread of the managed server takes only steps of the server, and has let go of
its guard and of the mutex at its end. -/
def managedDiscipline (tidy : Prop) (H : Sha256) (U : UrlCrate) (c : Coordinator) :
    (managed tidy H U c).Discipline where
  inv w := Ledger c.policy w ∧ (tidy → Space c.policy w)
  rely := Apart
  guar := ServerStep tidy c.policy
  pre := Fresh tidy
  post t _ _ := Released t
  rely_refl := Apart.refl
  rely_trans _ := .trans
  guar_inv h hw := ⟨h.ledger hw.1,fun htidy => h.space htidy hw.1 (hw.2 htidy)⟩
  guar_rely hu _ h := h.apart hu
  kill_inv h := h.elim
  kill_rely _ _ h := h.elim
  pre_stable hr h := h.stable hr
  launch_holds h hw := by
    obtain ⟨artifact,rfl⟩ := h
    exact service_holds hw

end threads
end StarfieldDatastore
