import StarfieldDatastore.Apart
import StarfieldDatastore.Deadlock
import StarfieldDatastore.Shelf

/-! An artifact that has been fetched is not fetched again, as long as nobody removes it: every
later call is served from the disk. -/
namespace StarfieldDatastore
open Interleaving

/-- The sidecar of the artifact describes content that it asks for. -/
def Secured (H : Sha256) (S : Set Bytes) (artifact : Artifact) (entry : IndexEntry) (w : World) : Prop :=
  w.index.lookup (indexPath artifact.key) = some (.parsed entry) ∧ ∃ body, Vouched H S artifact entry body

/-- The sidecar of the artifact stays, unless thread `t` has the lock of its key and the sidecar was
of no use. -/
def Replaces (H : Sha256) (S : Set Bytes) (artifact : Artifact) (t : ThreadId) (w w' : World) : Prop :=
  w'.index.lookup (indexPath artifact.key) = w.index.lookup (indexPath artifact.key) ∨
    w.locks (Layout.keyLockName H artifact.key) = some t ∧ ∀ entry, ¬ Secured H S artifact entry w

/-- The thread has the lock of the key, and there is nothing to serve. -/
def Lacking (H : Sha256) (S : Set Bytes) (artifact : Artifact) (t : ThreadId) (w : World) : Prop :=
  w.locks (Layout.keyLockName H artifact.key) = some t ∧ ∀ entry, ¬ Secured H S artifact entry w

/-- One thread among others that fetch the artifact, and none that takes it away. -/
def visitSetting (H : Sha256) (S : Set Bytes) (artifact : Artifact) (t : ThreadId) :
    Setting Call Call.Ret World where
  step c w r w' := Known H S w ∧ c.Works t w r w' ∧ w'.contents ⊆ S
  rely w w' := Frame t w w' ∧ (Known H S w → Known H S w') ∧
    (w.locks (Layout.keyLockName H artifact.key) = some t ∨ (∃ entry, Secured H S artifact entry w) →
      w'.index.lookup (indexPath artifact.key) = w.index.lookup (indexPath artifact.key))
  guar := Replaces H S artifact t
  rely_refl w := ⟨.refl t w,id,fun _ => rfl⟩
  rely_trans h h' := by
    refine ⟨h.1.trans h'.1,h'.2.1 ∘ h.2.1,fun hw => ?_⟩
    have hsame := h.2.2 hw
    refine (h'.2.2 ?_).trans hsame
    rcases hw with hlock | ⟨entry,hentry,hv⟩
    · exact .inl ((h.1.locks _).mpr hlock)
    · exact .inr ⟨entry,hsame.trans hentry,hv⟩

/-- The looks of a local hit on this entry. -/
def Call.Visits (artifact : Artifact) (entry : IndexEntry) (c : Call) : Prop :=
  c = .fs (.readSidecar (indexPath artifact.key)) ∨ c = .fs (.isBlob entry.digest) ∨
    c = .fs (.blobLen entry.digest) ∨ c = .fs (.readBlob entry.digest)

section visit
variable {H : Sha256} {S : Set Bytes} {U : UrlCrate} {ds : Datastore} {t : ThreadId} {w w' : World}
  {artifact : Artifact} {entry : IndexEntry} {body : Bytes} {ask : (c : Call) → c.Ret}

theorem Secured.stable (h : Secured H S artifact entry w)
    (hw : w'.index.lookup (indexPath artifact.key) = w.index.lookup (indexPath artifact.key)) :
    Secured H S artifact entry w' := ⟨hw.trans h.1,h.2⟩

theorem Lacking.stable (h : Lacking H S artifact t w)
    (hlock : w'.locks (Layout.keyLockName H artifact.key) = some t)
    (hw : w'.index.lookup (indexPath artifact.key) = w.index.lookup (indexPath artifact.key)) :
    Lacking H S artifact t w' :=
  ⟨hlock,fun entry he => h.2 entry (he.stable hw.symm)⟩

theorem informed_visit : Informed H S t (visitSetting H S artifact t) where
  does h := .inl h.2.1
  rely h := h.1.tmp
  guar h := .inl (by rw [h.rest])
  drops h := h.elim
  known h := h.1
  keeps h := h.2.1

theorem localHit_visits : (Datastore.localHit H artifact entry).run.Only (Call.Visits artifact entry) := by
  refine .bind_run (.lift (isFile_only (.inr (.inl rfl)))) fun found => ?_
  split
  · trivial
  · split
    · trivial
    · refine .bind_run (io_only (.inr (.inr (.inl rfl)))) fun length => ?_
      have hread : Call.Visits artifact entry (.fs (.readBlob entry.digest)) := .inr (.inr (.inr rfl))
      split
      · trivial
      · refine .bind_run (.bind_run (io_only hread) fun _ => trivial) fun actual => ?_
        split
        · trivial
        · exact .bind_run (validate_only hread) fun _ => trivial

/-- A look for this artifact asks for nothing else than its sidecar and the blob it names. -/
theorem lookupLocal_meets (h : Filed H artifact.key entry body w) (hlen : body.length = entry.bytes)
    (hwants : artifact.Wants H body) :
    (ds.lookupLocal H artifact).run.Meets w.answer (Call.Visits artifact entry) := by
  have hread : (ds.layout.readEntry artifact.key).run.consult w.answer = .ok (some entry) := by
    rw [readEntry_readable ds.layout (Leads.readable ⟨entry,h,hlen⟩)]
    exact congrArg _ (entryAt_eq.mpr h.sidecar)
  obtain ⟨path,hpath⟩ := localHit_serves.mpr ⟨⟨body,h.blob,h.hex,hlen⟩,body,h.blob,hwants⟩
  exact .bind_run (.of_only (readEntry_only _ _ (.inl rfl))) hread
    (.bind_run (.of_only localHit_visits) hpath trivial)

theorem Secured.filed (hS : Set.InjOn H.hex S) (hw : Known H S w) (h : Secured H S artifact entry w)
    (hv : Vouched H S artifact entry body) : Filed H artifact.key entry body w := by
  obtain ⟨e,blob,he,hblob,hhex,-⟩ := hw.consistent.sidecar _ _ h.1
  cases he
  obtain rfl := hw.same hS hblob hv.known hv.digest
  exact ⟨h.1,hblob,hhex⟩

/-- What the sidecar and its blob answer does not depend on anything else. -/
theorem answer_filed {c : Call} (hc : c.Visits artifact entry) (h : Filed H artifact.key entry body w)
    (h' : Filed H artifact.key entry body w') : w'.answer c = w.answer c := by
  rcases hc with rfl | rfl | rfl | rfl
  · simp only [World.answer,World.look,h.sidecar,h'.sidecar]
  · simp only [World.answer,World.look,h.blob,h'.blob]
  · simp only [World.answer,World.look,h.blob,h'.blob]
  · simp only [World.answer,World.look,h.blob,h'.blob]

theorem Call.Visits.looks {c : Call} (h : c.Visits artifact entry) : c.looks = true := by
  rcases h with rfl | rfl | rfl | rfl <;> rfl

/-- What a resolution makes of what it finds on the disk. -/
def onDisk (budget : Option ℕ) (entry : IndexEntry) : Except DatastoreError (List String × ResolveOutcome) :=
  if budget.any (entry.bytes > ·) then .error .transferLimit
  else .ok (blobPath entry.digest,⟨.localDisk,entry.bytes,none⟩)

/-- The network is asked only while there is nothing to serve. -/
def AsksInNeed (H : Sha256) (S : Set Bytes) (artifact : Artifact) (c : Call) (w : World) : Prop :=
  ∀ call, c = .net call → ∀ entry, ¬ Secured H S artifact entry w

theorem resolution_secured (hS : Set.InjOn H.hex S) (hw : Known H S w) (h : Secured H S artifact entry w)
    (budget : Option ℕ) : (ds.resolution H U artifact budget).run.Asks (visitSetting H S artifact t)
      (AsksInNeed H S artifact) (fun out w' => out = onDisk budget entry ∧ Secured H S artifact entry w') w := by
  obtain ⟨body,hv⟩ := h.2
  have hfiled := h.filed hS hw hv
  have hlen : body.length = entry.bytes := hv.bytes
  have hask : (ds.lookupLocal H artifact).run.Asks (visitSetting H S artifact t) (AsksInNeed H S artifact)
      (fun out w' => out = (ds.lookupLocal H artifact).run.consult w.answer ∧
        Known H S w' ∧ Secured H S artifact entry w') w := by
    refine .of_consult (lookupLocal_meets hfiled hlen hv.wants) (fun s s' hr hs =>
      ⟨hr.2.1 hs.1,hs.2.stable (hr.2.2 (.inr ⟨entry,hs.2⟩))⟩) (fun c s hc hs => ?_) ⟨hw,h⟩
    refine ⟨fun call hcall => ?_,fun r s' hstep => ?_⟩
    · subst hcall
      exact absurd hc.looks (by simp [Call.looks])
    · obtain ⟨rfl,rfl⟩ := (works_look hc.looks).2 r s' hstep.2.1
      exact ⟨.inl rfl,hs,answer_filed hc hfiled (hs.2.filed hS hs.1 hv)⟩
  obtain ⟨found,hhit,hfound⟩ := lookupLocal_hit ds ⟨entry,hfiled,hlen⟩ hv.wants
  obtain rfl : found = entry := by
    have hsame := hfound.sidecar.symm.trans hfiled.sidecar
    cases hsame
    rfl
  refine Program.Asks.bind_run (hask.mono ?_)
  rintro out u ⟨rfl,-,hu⟩
  rw [hhit]
  unfold onDisk
  simp only
  split
  · exact fun v hv => ⟨rfl,hu.stable (hv.2.2 (.inr ⟨found,hu⟩))⟩
  · exact fun v hv => ⟨rfl,hu.stable (hv.2.2 (.inr ⟨found,hu⟩))⟩

/-- Calls other than those on the lock of the key leave it with the thread. -/
theorem steady_lock {c : Call} {r : c.Ret} (hc : c.steady = true) (h : c.Works t w r w')
    (hlock : w.locks (Layout.keyLockName H artifact.key) = some t) :
    w'.locks (Layout.keyLockName H artifact.key) = some t := by
  have hne := keyLockName_ne H artifact.key
  by_cases hl : c.lockless = true
  · exact (owner_lockless hl (.inl h) (.file (Layout.keyLockName H artifact.key))).trans hlock
  · cases c with
    | net c => exact absurd rfl hl
    | cache c => cases hc
    | fs c =>
      cases c with
      | lock name =>
        obtain rfl : name = Layout.storeLockName := of_decide_eq_true hc
        cases r with
        | error e => rw [Call.Does.error (by simp) (.inl h)]; exact hlock
        | ok locked =>
          obtain ⟨-,rfl⟩ := Call.Does.lock (.inl h)
          exact (Function.update_of_ne hne _ _).trans hlock
      | unlock name =>
        obtain rfl : name = Layout.storeLockName := of_decide_eq_true hc
        rcases Call.Does.unlock (.inl h) with rfl | ⟨-,rfl⟩
        · exact hlock
        · exact (Function.update_of_ne hne _ _).trans hlock
      | _ => exact absurd rfl hl

theorem steady_index {c : Call} {r : c.Ret} (hc : c.steady = true) (h : c.Works t w r w') (path : String) :
    w'.index.lookup path = w.index.lookup path := by
  refine (congrFun (Call.Does.index (.inl h)) path).trans ?_
  cases c with
  | net c => rfl
  | cache c => rfl
  | fs c => cases c <;> first | rfl | cases hc

theorem asksInNeed_fs (c : FsCall) (w : World) : AsksInNeed H S artifact (.fs c) w := by
  intro call h
  cases h

theorem course_visit : Course H S t (visitSetting H S artifact t) (AsksInNeed H S artifact) artifact
    (Lacking H S artifact t) (fun path w => ∃ entry, Secured H S artifact entry w ∧ path = blobPath entry.digest) where
  toSheltered := informed_visit.toSheltered
  known h := h.1.within
  before hr hw := hw.stable ((hr.1.locks _).mpr hw.1) (hr.2.2 (.inl hw.1))
  after hr hw := by
    obtain ⟨entry,he,hpath⟩ := hw
    exact ⟨entry,he.stable (hr.2.2 (.inr ⟨entry,he⟩)),hpath⟩
  allowed _ hw _ _ := hw.2
  steady hc hw h := by
    have hindex := steady_index hc h.2.1
    exact ⟨.inl (hindex _),hw.stable (steady_lock hc h.2.1 hw.1) (hindex _)⟩
  writing {entry body w} hv hw := by
    refine ⟨asksInNeed_fs _ _,fun r w' h => ⟨.inr hw,?_⟩⟩
    have hdoes : Call.Does t _ w r w' := .inl h.2.1
    cases r with
    | error e => rwa [hdoes.error (by simp)]
    | ok written =>
      have hindex := congrFun hdoes.index (indexPath artifact.key)
      simp only [Event.index,Function.update_self] at hindex
      exact ⟨entry,⟨hindex,body,hv⟩,rfl⟩
  syncing hw := by
    refine ⟨asksInNeed_fs _ _,?_⟩
    rintro r w' ⟨-,⟨x,hx⟩,-⟩
    cases hx
    exact ⟨.inl rfl,hw⟩
  unlocking hw := by
    refine ⟨asksInNeed_fs _ _,fun r w' h => ?_⟩
    have hindex := steady_index rfl h.2.1
    obtain ⟨entry,he,hpath⟩ := hw
    exact ⟨.inl (hindex _),entry,he.stable (hindex _),hpath⟩

/-- What `readEntry` returns is what the sidecar says. -/
theorem readEntry_visit (layout : Layout) (hw : Lacking H S artifact t w) :
    (layout.readEntry artifact.key).run.Holds (visitSetting H S artifact t) (fun out w' =>
      Lacking H S artifact t w' ∧ ∀ entry, out = .ok (some entry) →
        w'.index.lookup (indexPath artifact.key) = some (.parsed entry)) w := by
  refine holds_io_bind fun u hu r u' hstep => ?_
  have hread := fun out (h : r = .ok out) => (informed_visit.does (h ▸ hstep)).readSidecar
  obtain ⟨hg,rfl⟩ := informed_visit.readOnly rfl hstep
  replace hw := course_visit.before hu hw
  refine ⟨hg,?_⟩
  match r with
  | .error e => exact fun v hv => ⟨course_visit.before hv hw,fun entry h => by cases h⟩
  | .ok none => exact fun v hv => ⟨course_visit.before hv hw,fun entry h => by cases h⟩
  | .ok (some (.malformed detail)) => exact fun v hv => ⟨course_visit.before hv hw,fun entry h => by cases h⟩
  | .ok (some (.parsed entry)) =>
    simp only
    split
    · intro v hv
      refine ⟨course_visit.before hv hw,fun entry' h => ?_⟩
      cases h
      exact (hv.2.2 (.inl hw.1)).trans (hread _ rfl).symm
    · exact fun v hv => ⟨course_visit.before hv hw,fun entry h => by cases h⟩

/-- Where there is nothing to serve, nothing is found. -/
theorem lookupLocal_visit (hS : Set.InjOn H.hex S) (hw : Lacking H S artifact t w) :
    (ds.lookupLocal H artifact).run.Holds (visitSetting H S artifact t) (fun out w' =>
      Lacking H S artifact t w' ∧ ∀ found, out ≠ .ok (some found)) w := by
  refine Program.Holds.bind_run ((readEntry_visit ds.layout hw).mono ?_)
  rintro out u ⟨hu,hentry⟩
  match out with
  | .error e => exact ⟨hu,fun found h => by cases h⟩
  | .ok none => exact fun v hv => ⟨course_visit.before hv hu,fun found h => by cases h⟩
  | .ok (some entry) =>
    have hkept : ∀ s s', (visitSetting H S artifact t).rely s s' →
        (Lacking H S artifact t s ∧ s.index.lookup (indexPath artifact.key) = some (.parsed entry)) →
        Lacking H S artifact t s' ∧ s'.index.lookup (indexPath artifact.key) = some (.parsed entry) :=
      fun s s' hr hs => ⟨course_visit.before hr hs.1,(hr.2.2 (.inl hs.1.1)).trans hs.2⟩
    refine Program.Holds.bind_run ((localHit_vouches informed_visit hS hkept ⟨hu,hentry entry rfl⟩).mono ?_)
    rintro out v ⟨hv,hpath⟩
    match out with
    | .error e => exact ⟨hv.1,fun found h => by cases h⟩
    | .ok none => exact fun x hx => ⟨course_visit.before hx hv.1,fun found h => by cases h⟩
    | .ok (some path) => exact absurd ⟨hv.2,(hpath path rfl).2⟩ (hv.1.2 entry)

/-- The end of a resolution, and what it is if there was something to serve at its start. -/
def Visited (H : Sha256) (S : Set Bytes) (artifact : Artifact) (budget : Option ℕ) (since : World)
    (out : Except DatastoreError (List String × ResolveOutcome)) (w : World) : Prop :=
  (∀ found, out = .ok found → ∃ entry, Secured H S artifact entry w ∧ found.1 = blobPath entry.digest) ∧
    ∀ entry, Secured H S artifact entry since → out = onDisk budget entry

theorem onDisk_ok {budget : Option ℕ} {found : List String × ResolveOutcome}
    (h : onDisk budget entry = .ok found) : found.1 = blobPath entry.digest := by
  unfold onDisk at h
  split at h
  · cases h
  · cases h
    rfl

theorem resolution_visit (hS : Set.InjOn H.hex S) (budget : Option ℕ) (hw : Known H S w)
    (hlock : w.locks (Layout.keyLockName H artifact.key) = some t) :
    (ds.resolution H U artifact budget).run.Asks (visitSetting H S artifact t) (AsksInNeed H S artifact)
      (Visited H S artifact budget w) w := by
  by_cases hneed : ∀ entry, ¬ Secured H S artifact entry w
  · have hlack : Lacking H S artifact t w := ⟨hlock,hneed⟩
    refine (resolution_asks course_visit budget ?_).mono fun out u hu => ⟨fun found hfound => ?_,fun entry he =>
      absurd he (hneed entry)⟩
    · refine (course_visit.passes (lookupLocal_visit hS hlack) (lookupLocal_only FsCall.steady_of_looks)
        hlack).mono ?_
      rintro out u ⟨⟨hu,hnone⟩,-⟩
      match out with
      | .error e => exact hu
      | .ok none => exact hu
      | .ok (some found) => exact absurd rfl (hnone found)
    · subst hfound
      exact hu
  · simp only [not_forall,not_not] at hneed
    obtain ⟨entry,he⟩ := hneed
    refine (resolution_secured hS hw he budget).mono ?_
    rintro out u ⟨rfl,hu⟩
    refine ⟨fun found hfound => ⟨entry,hu,onDisk_ok hfound⟩,fun entry' he' => ?_⟩
    have hsame := he.1.symm.trans he'.1
    cases hsame
    rfl

theorem Visited.stable {budget : Option ℕ} {since : World}
    {out : Except DatastoreError (List String × ResolveOutcome)} (h : Visited H S artifact budget since out w)
    (hw : ∀ entry, Secured H S artifact entry w → Secured H S artifact entry w') :
    Visited H S artifact budget since out w' := by
  refine ⟨fun found hfound => ?_,h.2⟩
  obtain ⟨entry,he,hpath⟩ := h.1 found hfound
  exact ⟨entry,hw entry he,hpath⟩

theorem Secured.relied (h : Secured H S artifact entry w) (hr : (visitSetting H S artifact t).rely w w') :
    Secured H S artifact entry w' := h.stable (hr.2.2 (.inr ⟨entry,h⟩))

theorem getWithBudget_visit (hS : Set.InjOn H.hex S) (budget : Option ℕ) :
    (ds.getWithBudget H U artifact budget).run.Asks (visitSetting H S artifact t) (AsksInNeed H S artifact)
      (Visited H S artifact budget w) w := by
  rw [getWithBudget_eq]
  refine Program.Asks.bind_run (Program.Asks.perform_bind fun u hu => ?_)
  refine ⟨asksInNeed_fs _ _,fun r v hstep => ?_⟩
  have hdoes : Call.Does t _ u r v := .inl hstep.2.1
  cases r with
  | error e =>
    obtain ⟨-,⟨x,hx⟩,-⟩ := hstep
    simp only [World.exec,World.runFs] at hx
    split at hx <;> cases hx
  | ok locked =>
    obtain ⟨-,rfl⟩ := hdoes.lock
    refine ⟨.inl rfl,fun x hx => ?_⟩
    have hknown : Known H S (u.setLock (Layout.keyLockName H artifact.key) (some t)) :=
      ⟨hstep.1.consistent.of_eq rfl rfl,hstep.2.2⟩
    have hlock : x.locks (Layout.keyLockName H artifact.key) = some t :=
      (hx.1.locks _).mpr (Function.update_self _ _ _)
    refine Program.Asks.bind ((resolution_visit hS budget (hx.2.1 hknown) hlock).mono fun out y hy => ?_)
    refine Program.Asks.perform_bind fun z hz => ⟨asksInNeed_fs _ _,fun r z' hstep => ?_⟩
    have hindex : z'.index = z.index := by
      rcases Call.Does.unlock (.inl hstep.2.1) with rfl | ⟨-,rfl⟩ <;> rfl
    refine ⟨.inl (by rw [hindex]),fun v' hv' => ?_⟩
    have hsince : ∀ entry, Secured H S artifact entry w → Secured H S artifact entry x := by
      intro entry he
      have hlocked : Secured H S artifact entry (u.setLock (Layout.keyLockName H artifact.key) (some t)) :=
        (he.relied hu).stable rfl
      exact hlocked.relied hx
    refine (show Visited H S artifact budget w out y from ⟨hy.1,fun entry he => hy.2 entry (hsince entry he)⟩).stable
      fun entry he => ?_
    have hend : Secured H S artifact entry z' := (he.relied hz).stable (by rw [hindex])
    exact hend.relied hv'

/-- An operation on other keys, and no collection. -/
def Operation.Clear (key : ArtifactKey) : Operation → Prop
  | .get _ artifact | .getLimited _ artifact _ | .importFile artifact _ => artifact.key ≠ key
  | .remove _ other => other ≠ key
  | .gc _ _ => False

theorem operation_spares {key : ArtifactKey} {op : Operation} (hop : op.Clear key) :
    (op.run H U).Only (Call.spares (indexPath key)) := by
  have hne : ∀ {other : ArtifactKey}, other ≠ key → indexPath key ≠ indexPath other :=
    fun h he => h (indexPath_injective he).symm
  cases op with
  | get ds artifact =>
    have hget : (ds.get H U artifact).run.Only (Call.spares (indexPath key)) :=
      .bind_run (getWithBudget_spares none (hne hop)) fun _ => trivial
    exact hget.bind fun _ => trivial
  | getLimited ds artifact bytes =>
    have hget : (ds.getLimited H U artifact bytes).run.Only (Call.spares (indexPath key)) :=
      .bind_run (getWithBudget_spares (some bytes) (hne hop)) fun _ => trivial
    exact hget.bind fun _ => trivial
  | importFile artifact path => exact (importFile_spares path (hne hop)).bind fun _ => trivial
  | remove ds other => exact (remove_spares (hne hop)).bind fun _ => trivial
  | gc ds maxBytes => exact hop.elim

theorem runAll_spares {key : ArtifactKey} {ops : List Operation} (hops : ∀ op ∈ ops, op.Clear key) :
    (runAll H U ops).Only (Call.spares (indexPath key)) := by
  induction ops with
  | nil => trivial
  | cons op ops ih =>
    apply (operation_spares (hops op (List.mem_cons_self ..))).bind
    exact fun _ => ih fun op hop => hops op (List.mem_cons_of_mem _ hop)

end visit

/-- What a thread does: fetch the artifact, or work on other keys. -/
inductive Visit
  | fetch (ds : Datastore) (budget : Option ℕ)
  | beside (ops : List Operation)

namespace Visit

def program (H : Sha256) (U : UrlCrate) (artifact : Artifact) :
    Visit → Prog (Option (Except DatastoreError (List String × ResolveOutcome)))
  | .fetch ds budget => (ds.getWithBudget H U artifact budget).run >>= fun out => .done (some out)
  | .beside ops => runAll H U ops >>= fun _ => .done none

def Clear (key : ArtifactKey) : Visit → Prop
  | .fetch _ _ => True
  | .beside ops => ∀ op ∈ ops, op.Clear key

/-- A fetch asks the network only in need. -/
def Asks (H : Sha256) (S : Set Bytes) (artifact : Artifact) : Visit → Call → World → Prop
  | .fetch _ _ => AsksInNeed H S artifact
  | .beside _ => fun _ _ => True

def Ends (H : Sha256) (S : Set Bytes) (artifact : Artifact) (since : World) :
    Visit → Option (Except DatastoreError (List String × ResolveOutcome)) → World → Prop
  | .fetch _ budget, some out, w => Visited H S artifact budget since out w
  | .fetch _ _, none, _ => False
  | .beside _, _, _ => True

end Visit

/-- Threads that fetch one artifact or work on other keys. No step fails, a thread can be killed
between any two steps, and all that is ever on disk is in `S`. -/
def visits (H : Sha256) (U : UrlCrate) (S : Set Bytes) (artifact : Artifact) (visit : ThreadId → Visit) :
    System ThreadId Call Call.Ret World (Option (Except DatastoreError (List String × ResolveOutcome))) where
  step t c w r w' := c.Works t w r w' ∧ w'.contents ⊆ S
  launch t _ p := p = (visit t).program H U artifact
  kill t w w' := w' = w.release t

section visits
variable {H : Sha256} {U : UrlCrate} {S : Set Bytes} {artifact : Artifact} {entry : IndexEntry}
  {visit : ThreadId → Visit} {t : ThreadId} {w w' : World}

theorem visit_visits (hS : Set.InjOn H.hex S) {visit : Visit} (hvisit : visit.Clear artifact.key) :
    (visit.program H U artifact).Asks (visitSetting H S artifact t) (visit.Asks H S artifact)
      (visit.Ends H S artifact w) w := by
  cases visit with
  | fetch ds budget =>
    refine Program.Asks.bind ((getWithBudget_visit hS budget).mono fun out u hu v hv => ?_)
    exact hu.stable fun entry he => he.relied hv
  | beside ops =>
    have hspares : (runAll H U ops).Holds (visitSetting H S artifact t) (fun _ _ => True) w := by
      refine .of_only (A := fun _ => True) (runAll_spares hvisit) (fun _ _ _ _ => trivial) ?_ trivial
      exact fun c s r s' hc _ h => ⟨.inl ((congrFun (Call.Does.index (.inl h.2.1)) _).trans (hc _ _)),trivial⟩
    have hasks : (runAll H U ops).Asks (visitSetting H S artifact t) (fun _ _ => True) (fun _ _ => True) w :=
      .of_allowed hspares (runAll_spares hvisit) fun _ _ _ => trivial
    exact Program.Asks.bind (hasks.mono fun _ _ _ _ _ => trivial)

theorem visit_promises {visit : Visit} :
    (visit.program H U artifact).Holds (sharedSetting H t) (fun _ _ => True) w := by
  cases visit with
  | fetch ds budget =>
    refine Program.Holds.bind ((getWithBudget_holds guarded_sharedSetting budget ?_).mono fun _ _ _ _ _ => trivial)
    exact fun h => h.elim
  | beside ops => exact Program.Holds.bind ((runAll_holds ops).mono fun _ _ _ _ _ => trivial)

/-- What a thread promises to the others. -/
def visitGuar (H : Sha256) (S : Set Bytes) (artifact : Artifact) (t : ThreadId) (w w' : World) : Prop :=
  (Replaces H S artifact t w w' ∧ ∃ c r, (visitSetting H S artifact t).step c w r w') ∧ Promise H t w w'

theorem visit_disciplined (hS : Set.InjOn H.hex S) {visit : Visit} (hvisit : visit.Clear artifact.key) :
    (visit.program H U artifact).Asks { visitSetting H S artifact t with guar := visitGuar H S artifact t }
      (visit.Asks H S artifact) (visit.Ends H S artifact w) w := by
  have hasks := (visit_visits (U := U) (w := w) (t := t) hS hvisit).caused
  have hrely : ∀ w w', (visitSetting H S artifact t).rely w w' → Frame t w w' := fun _ _ h => h.1
  refine (hasks.and_guar hrely ?_ visit_promises).mono fun _ _ h => h.1
  exact fun c w r w' h => ⟨h.1.consistent,.inl h.2.1,hS.mono h.2.2⟩

/-- The rely and guarantee of the threads. -/
def visitDiscipline (H : Sha256) (U : UrlCrate) {S : Set Bytes} {artifact : Artifact}
    {visit : ThreadId → Visit} (hS : Set.InjOn H.hex S) (hvisit : ∀ t, (visit t).Clear artifact.key) :
    (visits H U S artifact visit).Discipline where
  inv := Known H S
  rely t := (visitSetting H S artifact t).rely
  guar := visitGuar H S artifact
  pre _ _ := True
  post t s₀ := (visit t).Ends H S artifact s₀
  rely_refl t := (visitSetting H S artifact t).rely_refl
  rely_trans t := (visitSetting H S artifact t).rely_trans
  guar_inv := by
    rintro t w w' ⟨⟨-,c,r,hstep⟩,hpromise⟩ h
    exact ⟨hpromise.consistent h.consistent,hstep.2.2⟩
  guar_rely := by
    rintro t u w w' htu - ⟨⟨hreplaces,c,r,hstep⟩,hpromise⟩
    refine ⟨hpromise.frame u htu.symm,fun h => ⟨hpromise.consistent h.consistent,hstep.2.2⟩,fun h => ?_⟩
    rcases hreplaces with hsame | ⟨hlock,hlack⟩
    · exact hsame
    · rcases h with hu | ⟨entry,he⟩
      · exact absurd (Option.some.inj (hlock.symm.trans hu)) htu
      · exact absurd he (hlack entry)
  kill_inv h hw := by
    subst h
    exact hw.released
  kill_rely htu _ h := by
    subst h
    exact ⟨.release htu.symm,fun h => h.released,fun _ => rfl⟩
  pre_stable _ _ := trivial
  launch_holds {t s p} h _ := by
    subst h
    exact (visit_disciplined hS (hvisit t)).holds

/-- As long as nobody takes the artifact away: it is fetched only while there is nothing on disk that
it asks for; what has been fetched stays, and every fetch that succeeds leads to it; one that is started
when it is there is answered from the disk. -/
theorem visits_fetch_once (hS : Set.InjOn H.hex S) (hvisit : ∀ t, (visit t).Clear artifact.key)
    {c : Config ThreadId Call Call.Ret World (Option (Except DatastoreError (List String × ResolveOutcome)))}
    (hw : Known H S w) (hr : (visits H U S artifact visit).Reaches (System.init w) c) :
    (∀ t ds budget s₀ call next, visit t = .fetch ds budget → c.thread t = .running s₀ (.call (.net call) next) →
      ∀ entry, ¬ Secured H S artifact entry c.state) ∧
    (∀ c' entry, (visits H U S artifact visit).Reaches c c' → Secured H S artifact entry c.state →
      Secured H S artifact entry c'.state) ∧
    ∀ t ds budget s₀ out, visit t = .fetch ds budget → c.thread t = .finished s₀ (some out) →
      (∀ found, out = .ok found → ∃ entry body, Secured H S artifact entry c.state ∧
        found.1 = blobPath entry.digest ∧ c.state.fileAt found.1 = some body ∧ artifact.Wants H body) ∧
      ∀ entry, Secured H S artifact entry s₀ → out = onDisk budget entry := by
  let d := visitDiscipline H U hS hvisit
  have hsound := d.sound_init hw fun _ => trivial
  have hend := d.sound_of_reaches hsound hr
  refine ⟨fun t ds budget s₀ call next ht hrun => ?_,fun c' entry hr' he => ?_,fun t ds budget s₀ out ht hfin => ?_⟩
  · have hasks := d.asks_of_reaches (P := fun t => (visit t).Asks H S artifact)
      (fun h _ => by subst h; exact visit_disciplined hS (hvisit _)) hw (fun _ => trivial) hr t s₀ _ hrun
    have hneed := (hasks _ (d.rely_refl t _)).1
    rw [ht] at hneed
    exact hneed call rfl
  · refine d.kept_of_reaches (P := Secured H S artifact entry) ?_ ?_ hend he hr'
    · intro t s s' _ hg hs
      rcases hg.1.1 with hsame | ⟨-,hlack⟩
      · exact hs.stable hsame
      · exact absurd hs (hlack entry)
    · rintro t s s' - rfl hs
      exact hs.stable rfl
  · have hgood := hend.good t
    rw [hfin] at hgood
    have hvisited := hgood _ (d.rely_refl t _)
    simp only [d,visitDiscipline,ht] at hvisited
    refine ⟨fun found hfound => ?_,hvisited.2⟩
    obtain ⟨entry,he,hpath⟩ := hvisited.1 found hfound
    obtain ⟨body,hv⟩ := he.2
    refine ⟨entry,body,he,hpath,?_,hv.wants⟩
    rw [hpath]
    simpa [World.fileAt,blobPath] using (he.filed hS hend.inv hv).blob

/-- A fetch of what is in the cache. -/
theorem visits_fetch_once_cached :
    let ds : Datastore := ⟨⟨"/cache"⟩,none,⟨none⟩,true,false,none⟩
    let entry : IndexEntry := ⟨Sha256.sample.hex [0x61,0x62,0x63],3,0,none,none,none,.localDisk⟩
    ∃ c out, (visits .sample (twoHosts "a.com" "b.org") {[0x61,0x62,0x63]} .sample fun _ => .fetch ds none).Reaches
        (System.init .cached) c ∧ c.thread 0 = .finished .cached (some out) ∧
      Secured .sample {[0x61,0x62,0x63]} .sample entry .cached ∧ out = onDisk none entry := by
  intro ds entry
  have hc := contents_cached
  have hr : ∃ events w', ((Visit.fetch ds none).program .sample (twoHosts "a.com" "b.org") .sample).Runs
      (fun c w r w' => c.Works 0 w r w' ∧ w'.contents ⊆ {[0x61,0x62,0x63]}) .cached events
      (some (.ok (blobPath entry.digest,⟨.localDisk,3,none⟩))) w' :=
    ⟨_,_,.call ⟨⟨(),rfl⟩,hc _⟩ (.call ⟨⟨(),rfl⟩,hc _⟩ (.call ⟨⟨(),rfl⟩,hc _⟩
      (.call ⟨⟨(),rfl⟩,hc _⟩ (.call ⟨⟨(),rfl⟩,hc _⟩ (.call ⟨⟨(),rfl⟩,hc _⟩
        (.call ⟨⟨(),rfl⟩,hc _⟩ (.done _ _)))))))⟩
  obtain ⟨events,w',hr⟩ := hr
  have hreach : (visits .sample (twoHosts "a.com" "b.org") {[0x61,0x62,0x63]} .sample fun _ =>
      .fetch ds none).Reaches (System.init .cached) _ :=
    .tail (.head (.launch (t := 0) rfl rfl) (System.reaches_of_runs rfl hr)) (.finish (t := 0) rfl)
  have hsecured : Secured .sample {[0x61,0x62,0x63]} .sample entry .cached :=
    ⟨AList.lookup_insert _,[0x61,0x62,0x63],rfl,rfl,rfl,wants_iff.mpr ⟨rfl,rfl⟩⟩
  have hknown : Known .sample {[0x61,0x62,0x63]} .cached := ⟨consistent_cached,hc _⟩
  have hclear : ∀ t : ThreadId, (Visit.fetch ds none).Clear Artifact.sample.key := fun _ => trivial
  have honce := (visits_fetch_once (Set.injOn_singleton _ _) hclear hknown hreach).2.2
  exact ⟨_,_,hreach,rfl,hsecured,(honce 0 ds none .cached _ rfl rfl).2 entry hsecured⟩

end visits
end StarfieldDatastore
