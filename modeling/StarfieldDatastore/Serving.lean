import StarfieldDatastore.Managed
import StarfieldDatastore.Manifest
import StarfieldDatastore.Shelf

/-! The service as a whole: requests for the artifacts of a manifest, with or without a coordinator,
and whoever else works on the same cache root. -/
namespace StarfieldDatastore
open Interleaving

/-- A check that occurs in another one, at any depth. -/
inductive ContentCheck.Part : ContentCheck → ContentCheck → Prop
  | whole (check : ContentCheck) : Part check check
  | child {checks : List ContentCheck} {check part : ContentCheck} (mem : check ∈ checks)
      (below : Part part check) : Part part (.all checks)

/-- What the metadata of an object has to be for an artifact. -/
structure Artifact.Admits (artifact : Artifact) (info : MirrorObject) : Prop where
  bytes : ∀ n, artifact.expectedBytes = some n → info.bytes = n
  pins : ∀ pin, (ContentCheck.sha256 pin).Part artifact.check → info.sha256 = pin
  minima : ∀ n, (ContentCheck.minBytes n).Part artifact.check → n ≤ info.bytes

/-- Some character of the license is not white space. -/
def Artifact.Licensed (artifact : Artifact) : Prop :=
  artifact.provenance.license.toList.all isWhitespace = false

section metadata
variable {info : MirrorObject} {artifact : Artifact}

theorem part_all {checks : List ContentCheck} {part : ContentCheck} (hne : ∀ checks, part ≠ .all checks) :
    part.Part (.all checks) ↔ ∃ check ∈ checks, part.Part check := by
  constructor
  · intro h
    cases h with
    | whole => exact absurd rfl (hne checks)
    | child mem below => exact ⟨_,mem,below⟩
  · rintro ⟨check,mem,below⟩
    exact .child mem below

theorem part_leaf {check part : ContentCheck} (h : part.Part check) (hleaf : ∀ checks, check ≠ .all checks) :
    part = check := by
  cases h with
  | whole => rfl
  | child mem below => exact absurd rfl (hleaf _)

mutual

theorem checkPins_iff : ∀ check : ContentCheck, checkPins info check = true ↔
    (∀ pin, (ContentCheck.sha256 pin).Part check → info.sha256 = pin) ∧
      ∀ n, (ContentCheck.minBytes n).Part check → n ≤ info.bytes
  | .sha256 digest => by
    constructor
    · intro h
      have hpin : digest = info.sha256 := of_decide_eq_true h
      refine ⟨fun pin hp => ?_,fun n hp => ?_⟩
      · cases part_leaf hp (by simp)
        exact hpin.symm
      · cases part_leaf hp (by simp)
    · exact fun h => decide_eq_true (h.1 digest (.whole _)).symm
  | .minBytes min => by
    constructor
    · intro h
      have hmin : info.bytes ≥ min := of_decide_eq_true h
      refine ⟨fun pin hp => ?_,fun n hp => ?_⟩
      · cases part_leaf hp (by simp)
      · cases part_leaf hp (by simp)
        exact hmin
    · exact fun h => decide_eq_true (h.2 min (.whole _))
  | .all checks => by
    have hpin : ∀ pin, (ContentCheck.sha256 pin).Part (.all checks) ↔ _ := fun pin => part_all (by simp)
    have hmin : ∀ n, (ContentCheck.minBytes n).Part (.all checks) ↔ _ := fun n => part_all (by simp)
    simp only [hpin,hmin]
    rw [checkPins,checkAllPins_iff]
    constructor
    · intro h
      exact ⟨fun pin ⟨check,mem,hp⟩ => (h check mem).1 pin hp,fun n ⟨check,mem,hp⟩ => (h check mem).2 n hp⟩
    · intro h check mem
      exact ⟨fun pin hp => h.1 pin ⟨check,mem,hp⟩,fun n hp => h.2 n ⟨check,mem,hp⟩⟩
  | .magic prefixes trim => by
    refine ⟨fun _ => ⟨fun pin hp => ?_,fun n hp => ?_⟩,fun _ => rfl⟩
    · cases part_leaf hp (by simp)
    · cases part_leaf hp (by simp)
  | .notHtml => by
    refine ⟨fun _ => ⟨fun pin hp => ?_,fun n hp => ?_⟩,fun _ => rfl⟩
    · cases part_leaf hp (by simp)
    · cases part_leaf hp (by simp)
  | .custom f => by
    refine ⟨fun _ => ⟨fun pin hp => ?_,fun n hp => ?_⟩,fun _ => rfl⟩
    · cases part_leaf hp (by simp)
    · cases part_leaf hp (by simp)
  | .none => by
    refine ⟨fun _ => ⟨fun pin hp => ?_,fun n hp => ?_⟩,fun _ => rfl⟩
    · cases part_leaf hp (by simp)
    · cases part_leaf hp (by simp)

theorem checkAllPins_iff : ∀ checks : List ContentCheck, checkAllPins info checks = true ↔
    ∀ check ∈ checks, (∀ pin, (ContentCheck.sha256 pin).Part check → info.sha256 = pin) ∧
      ∀ n, (ContentCheck.minBytes n).Part check → n ≤ info.bytes
  | [] => by simp [checkAllPins]
  | check :: checks => by
    rw [checkAllPins,Bool.and_eq_true,checkPins_iff check,checkAllPins_iff checks,List.forall_mem_cons]

end

/-- The metadata is accepted if and only if it is what the manifest says, as far as it says. -/
theorem checkMetadata_iff : checkMetadata artifact info = .ok () ↔ artifact.Admits info := by
  have hbytes : artifact.expectedBytes.any (· ≠ info.bytes) = false ↔
      ∀ n, artifact.expectedBytes = some n → info.bytes = n := by
    cases artifact.expectedBytes with
    | none => simp
    | some n =>
      simp only [Option.any_some,ne_eq,decide_not,Bool.not_eq_false',decide_eq_true_eq,Option.some.injEq,
        forall_eq']
      exact eq_comm
  have hok : checkMetadata artifact info = .ok () ↔
      artifact.expectedBytes.any (· ≠ info.bytes) = false ∧ checkPins info artifact.check = true := by
    unfold checkMetadata
    cases artifact.expectedBytes.any (· ≠ info.bytes) with
    | true => simp
    | false => cases checkPins info artifact.check <;> simp
  rw [hok,hbytes,checkPins_iff]
  exact ⟨fun h => ⟨h.1,h.2.1,h.2.2⟩,fun h => ⟨h.bytes,h.pins,h.minima⟩⟩

end metadata

/-- What a client is answered. -/
inductive Answer
  | found (url : Url) (info : MirrorObject)
  | refused (status : ℕ) (retryAfter : Option ℕ) (text : String)

namespace Answer

def unknown : Answer := .refused 404 none "unknown artifact"

def ofError (error : DatastoreError) : Answer :=
  match error with
  | .fillUnavailable _ => .refused 503 (some 1) error.display
  | .contentRejected _ _ => .refused 422 none error.display
  | _ => .refused 502 none error.display

/-- The answer to what the worker returned; `none` if it panicked. -/
def ofResult : Option (Except DatastoreError (Url × MirrorObject)) → Answer
  | some (.ok (url,info)) => .found url info
  | some (.error error) => .ofError error
  | none => .refused 500 none "artifact worker failed"

end Answer

namespace Service
variable (H : Sha256) (U : UrlCrate)

/-- The path that the store returns, within the limit of a fill guard or without one. -/
def fetch (store : Datastore) (artifact : Artifact) : Option ℕ → Op (List String)
  | some bytes => store.getLimited H U artifact bytes
  | none => store.get H U artifact

/-- Fills the mirror; another fill may have done so while this one waited. -/
def upload (store : Datastore) (artifact : Artifact) (limit : Option ℕ) : Op MirrorObject := do
  match ← ExceptT.mk (net (.objectHead artifact.key)) with
  | some info => return info
  | none =>
    let path ← fetch H U store artifact limit
    match ← store.entry artifact.key with
    | none => throw (.mirror "local entry disappeared before upload")
    | some entry =>
      let info : MirrorObject :=
        ⟨entry.digest,entry.bytes,none,entry.source,entry.providerIdentity,entry.fetchedAt⟩
      let _ ← ExceptT.mk (net (.objectPut artifact.key (path.getLastD "") info))
      return info

/-- The worker that fills, up to its redirect. -/
def serveMiss (store : Datastore) (artifact : Artifact) (limit : Option ℕ) : Op (Url × MirrorObject) := do
  let info ← upload H U store artifact limit
  redirect artifact info

end Service

structure Server where
  manifest : Manifest
  store : Datastore
  cache : Option Coordinator

namespace Server
variable (H : Sha256) (U : UrlCrate) (s : Server)

/-- The fill of a miss: behind the coordinator if there is one. -/
def miss (artifact : Artifact) : Prog Answer := do
  match s.cache with
  | some c =>
    match ← (c.admitFill artifact.expectedBytes).run with
    | .error e => return .ofError e
    | .ok limit =>
      let result ← interruptible (Service.serveMiss H U s.store artifact (some limit)).run
      c.finish H
      return .ofResult result
  | none =>
    let result ← interruptible (Service.serveMiss H U s.store artifact none).run
    return .ofResult result

/-- `GET /artifact/{key}`. -/
def artifact (key : String) : Prog Answer :=
  match ArtifactKey.new key with
  | .error _ => return .unknown
  | .ok key =>
    match s.manifest.get key with
    | none => return .unknown
    | some artifact => do
      match ← interruptible (Service.hit artifact).run with
      | none => return .ofResult none
      | some (.error e) => return .ofError e
      | some (.ok (some found)) => return .ofResult (some (.ok found))
      | some (.ok none) => s.miss H U artifact

end Server
/-- The artifacts of a manifest. Of several with one key only the first is found. -/
def Manifest.Lists (m : Manifest) (artifact : Artifact) : Prop := m.get artifact.key = some artifact

/-- What is put is for a licensed artifact of the manifest, under the digest and the length of content
that the artifact asks for. -/
def Deposits (H : Sha256) (S : Set Bytes) (m : Manifest) (c : Call) (_ : World) : Prop :=
  ∀ key digest info, c = .net (.objectPut key digest info) → ∃ artifact, m.get key = some artifact ∧
    artifact.Licensed ∧ ∃ body ∈ S, info.sha256 = H.hex body ∧ info.bytes = body.length ∧ artifact.Wants H body

section requests
variable {H : Sha256} {S : Set Bytes} {U : UrlCrate} {m : Manifest} {s : Server} {t : ThreadId} {w w' : World}
  {artifact : Artifact} {ds : Datastore} {α : Type}

theorem Manifest.onePerKey (m : Manifest) : OnePerKey m.Lists := by
  intro a b ha hb hkey
  have ha : m.get a.key = some a := ha
  rw [hkey,show m.get b.key = some b from hb] at ha
  exact (Option.some.inj ha).symm

theorem Manifest.lists_of_get {key : ArtifactKey} (h : m.get key = some artifact) :
    artifact.key = key ∧ m.Lists artifact := by
  have hfound : (artifact.key = key : Bool) = true := List.find?_some (p := fun a : Artifact => a.key = key) h
  have hkey := of_decide_eq_true hfound
  exact ⟨hkey,by rw [Manifest.Lists,hkey]; exact h⟩

theorem deposits_of_not_puts (c : Call) (w : World) (hc : ¬ c.Puts) : Deposits H S m c w := by
  intro key digest info h
  exact absurd ⟨key,digest,info,h⟩ hc

theorem quiet_cache (c : CacheCall) : (Call.cache c).Quiet := ⟨by simp,by rintro ⟨key,digest,info,h⟩; cases h⟩

theorem quiet_fs {c : FsCall} (hc : ∀ path entry, c ≠ .persistSidecar path entry) : (Call.fs c).Quiet := by
  constructor
  · intro path entry h
    exact hc path entry (Call.fs.inj h)
  · rintro ⟨key,digest,info,h⟩
    cases h

/-- A filesystem step followed by `?`: an error ends the operation. -/
theorem asks_io_bind {E : Setting Call Call.Ret World} {P : Call → World → Prop} {c : FsCall}
    {f : c.Out → Op α} {Q : Except DatastoreError α → World → Prop}
    (h : ∀ u, E.rely w u → P (.fs c) u ∧ ∀ r v, E.step (.fs c) u r v → E.guar u v ∧ match r with
      | .ok a => (f a).run.Asks E P Q v
      | .error e => ∀ v', E.rely v v' → Q (.error (.io e)) v') : (io c >>= f).run.Asks E P Q w := by
  intro u hu
  obtain ⟨hp,hn⟩ := h u hu
  refine ⟨hp,fun r v hv => ?_⟩
  obtain ⟨hg,hr⟩ := hn r v hv
  refine ⟨hg,?_⟩
  cases r with
  | ok a => exact hr
  | error e => exact hr

/-- A worker that can panic does nothing else than the worker. -/
theorem interruptible_asks {E : Setting Call Call.Ret World} {P : Call → World → Prop} {Q : α → World → Prop}
    {p : Prog α} (hpanics : ∀ w, P (.cache .panics) w ∧ ∀ b w', E.step (.cache .panics) w b w' →
      E.guar w w' ∧ w' = w) (hunwind : ∀ w, P (.cache .unwind) w ∧ ∀ r w', E.step (.cache .unwind) w r w' →
      E.guar w w') (h : p.Asks E P Q w) :
    (interruptible p).Asks E P (fun out w' => ∀ a, out = some a → Q a w') w := by
  have thrown : ∀ u, (do
      cache .unwind
      return none : Prog (Option α)).Asks E P (fun out w' => ∀ a, out = some a → Q a w') u := by
    intro u v hv
    refine ⟨(hunwind v).1,fun r v' hstep => ⟨(hunwind v).2 r v' hstep,fun x hx a ha => ?_⟩⟩
    cases ha
  induction p generalizing w with
  | done a =>
    refine Program.Asks.perform_bind fun u hu => ⟨(hpanics u).1,fun b u' hstep => ?_⟩
    obtain ⟨hg,rfl⟩ := (hpanics u).2 b u' hstep
    refine ⟨hg,?_⟩
    cases b with
    | true => exact thrown u'
    | false =>
      intro v hv a' ha
      cases ha
      exact h v (E.rely_trans hu hv)
  | call c next ih =>
    refine Program.Asks.perform_bind fun u hu => ⟨(hpanics u).1,fun b u' hstep => ?_⟩
    obtain ⟨hg,rfl⟩ := (hpanics u).2 b u' hstep
    refine ⟨hg,?_⟩
    cases b with
    | true => exact thrown u'
    | false =>
      intro v hv
      obtain ⟨hp,hn⟩ := h v (E.rely_trans hu hv)
      exact ⟨hp,fun r v' hstep => ⟨(hn r v' hstep).1,ih r (hn r v' hstep).2⟩⟩

theorem interruptible_shelf {listed : Artifact → Prop} {P : Call → World → Prop}
    (hP : ∀ c w, ¬ c.Puts → P c w) {p : Prog α} {Q : α → World → Prop}
    (h : p.Asks (shelfSetting H S listed t) P Q w) :
    (interruptible p).Asks (shelfSetting H S listed t) P (fun out w' => ∀ a, out = some a → Q a w') w := by
  refine interruptible_asks (fun w => ⟨hP _ _ (quiet_cache _).2,fun b w' hstep => ?_⟩)
    (fun w => ⟨hP _ _ (quiet_cache _).2,fun r w' hstep => ?_⟩) h
  · exact ⟨hstep.2.1.vouches (quiet_cache _).1,hstep.2.1.panics⟩
  · exact hstep.2.1.vouches (quiet_cache _).1

/-- The entry that is read after `get` describes what the artifact asks for, whoever wrote it. -/
theorem entry_shelf {listed : Artifact → Prop} {P : Call → World → Prop} (hP : ∀ c w, ¬ c.Puts → P c w)
    (hone : OnePerKey listed) (hl : listed artifact) (hw : Attested H S artifact none w) :
    (ds.entry artifact.key).Asks (shelfSetting H S listed t) P (fun out _ => ∀ entry, out = some entry →
      ∃ body, Vouched H S artifact entry body) w := by
  have hread : (ds.layout.readEntry artifact.key).run.Asks (shelfSetting H S listed t) P (fun out _ =>
      ∀ entry, out = .ok (some entry) → ∃ body, Vouched H S artifact entry body) w := by
    refine asks_io_bind fun u hu => ⟨hP _ _ (quiet_fs (by simp)).2,fun r v hstep => ?_⟩
    refine ⟨hstep.2.1.vouches (by simp),?_⟩
    match r with
    | .error e => exact fun y hy entry h => by cases h
    | .ok none => exact fun y hy entry h => by cases h
    | .ok (some (.malformed detail)) => exact fun y hy entry h => by cases h
    | .ok (some (.parsed found)) =>
      have hfound := hstep.2.1.readSidecar
      simp only
      split
      · intro y hy entry h
        cases h
        rcases hw.stable hone hl hu.2.1 found hfound.symm with h | h
        · cases h
        · exact h
      · exact fun y hy entry h => by cases h
  refine Program.Asks.bind (hread.mono fun out u hu => ?_)
  match out with
  | .error e => exact fun v hv entry h => by cases h
  | .ok none => exact fun v hv entry h => by cases h
  | .ok (some found) =>
    have hlook : (isFile found.digest).Only Call.Quiet := isFile_only (quiet_fs (by simp))
    refine Program.Asks.bind ((quiet_shelf hP hlook).mono fun present v _ x hx entry h => ?_)
    split at h
    · cases h
      exact hu _ rfl
    · cases h

theorem upload_shelf (hS : Set.InjOn H.hex S) (hl : m.Lists artifact) (hlicense : artifact.Licensed)
    (limit : Option ℕ) : (Service.upload H U ds artifact limit).run.Asks (shelfSetting H S m.Lists t)
      (Deposits H S m) (fun _ _ => True) w := by
  have hP := deposits_of_not_puts (H := H) (S := S) (m := m)
  have hone := m.onePerKey
  refine Program.Asks.bind_run fun u hu => ⟨hP _ _ (by rintro ⟨key,digest,info,h⟩; cases h),fun r v hstep => ?_⟩
  refine ⟨hstep.2.1.vouches (by simp),fun x hx => ?_⟩
  match r with
  | .error e => exact fun _ _ => trivial
  | .ok (some info) => exact fun _ _ => trivial
  | .ok none =>
    have hget : (Service.fetch H U ds artifact limit).run.Asks (shelfSetting H S m.Lists t) (Deposits H S m)
        (Concluded (fun _ => True) (Shelved H S artifact) id) x := by
      cases limit with
      | some bytes => exact getLimited_shelf hP hS hone hl bytes
      | none => exact get_shelf hP hS hone hl
    refine Program.Asks.bind_run (hget.mono fun out y hy => ?_)
    cases out with
    | error e => exact fun _ _ => trivial
    | ok path =>
      refine Program.Asks.bind_run (Program.Asks.bind ((entry_shelf hP hone hl hy.attested).mono
        fun found z hz z' _ => ?_))
      cases found with
      | none => exact fun _ _ => trivial
      | some entry =>
        obtain ⟨body,hv⟩ := hz entry rfl
        refine Program.Asks.bind_run fun v' _ => ⟨fun key digest info h => ?_,fun r y' hstep => ?_⟩
        · cases h
          exact ⟨artifact,hl,hlicense,body,hv.known,hv.digest.symm,hv.bytes.symm,hv.wants⟩
        · refine ⟨hstep.2.1.vouches (by simp),fun z' _ => ?_⟩
          cases r with
          | error e => exact fun _ _ => trivial
          | ok outcome => exact fun _ _ => trivial

theorem interruptible_only {P : Call → Prop} (hcache : ∀ c, P (.cache c)) {p : Prog α} (hp : p.Only P) :
    (interruptible p).Only P := by
  have thrown : (do
      cache .unwind
      return none : Prog (Option α)).Only P := ⟨hcache _,fun _ => trivial⟩
  induction p with
  | done a =>
    refine ⟨hcache _,fun b => ?_⟩
    cases b with
    | true => exact thrown
    | false => trivial
  | call c next ih =>
    refine ⟨hcache _,fun b => ?_⟩
    cases b with
    | true => exact thrown
    | false => exact ⟨hp.1,fun r => ih r (hp.2 r)⟩

theorem interruptible_returns {Q : α → Prop} {p : Prog α} (h : p.Returns Q) :
    (interruptible p).Returns fun out => ∀ a, out = some a → Q a := by
  have thrown : (do
      cache .unwind
      return none : Prog (Option α)).Returns fun out => ∀ a, out = some a → Q a := by
    intro r a ha
    cases ha
  induction p with
  | done a =>
    intro b
    cases b with
    | true => exact thrown
    | false =>
      intro a' ha
      cases ha
      exact h
  | call c next ih =>
    intro b
    cases b with
    | true => exact thrown
    | false => exact fun r => ih r (h r)

theorem redirect_returns (info : MirrorObject) : (Service.redirect artifact info).run.Returns fun out =>
    ∀ found, out = .ok found → found.2 = info ∧ artifact.Admits info := by
  refine .except_bind (fun e _ found h => by cases h) fun passed hmeta => ?_
  refine .bind_run (.of_all fun r => ?_)
  cases r with
  | error e =>
    intro found h
    cases h
  | ok url =>
    intro found h
    cases h
    exact ⟨rfl,checkMetadata_iff.mp hmeta⟩

theorem hit_returns : (Service.hit artifact).run.Returns fun out => ∀ found, out = .ok found →
    artifact.Licensed ∧ ∀ url info, found = some (url,info) → artifact.Admits info := by
  have hhead : (Service.head artifact).run.Returns fun out => ∀ found, out = .ok found → artifact.Licensed := by
    unfold Service.head
    split
    · intro found h
      cases h
    · rename_i hlicense
      exact .of_all fun _ _ _ => (Bool.not_eq_true _).mp hlicense
  refine .bind_run (hhead.mono fun out hlicense => ?_)
  match out with
  | .error e =>
    intro found h
    cases h
  | .ok none =>
    intro found h
    cases h
    exact ⟨hlicense _ rfl,fun url info h => by cases h⟩
  | .ok (some info) =>
    refine .bind_run ((redirect_returns info).mono fun out hout => ?_)
    cases out with
    | error e =>
      intro found h
      cases h
    | ok answered =>
      intro found h
      cases h
      obtain ⟨rfl,hallowed⟩ := hout _ rfl
      refine ⟨hlicense _ rfl,fun url info' h => ?_⟩
      cases h
      exact hallowed

theorem serveMiss_returns (limit : Option ℕ) : (Service.serveMiss H U ds artifact limit).run.Returns fun out =>
    ∀ url info, out = .ok (url,info) → artifact.Admits info := by
  refine .bind_run (.of_all fun r => ?_)
  cases r with
  | error e =>
    intro url info h
    cases h
  | ok info =>
    refine (redirect_returns info).mono fun out hout url info' h => ?_
    obtain ⟨rfl,hallowed⟩ := hout _ h
    exact hallowed

theorem Answer.of_found {result : Option (Except DatastoreError (Url × MirrorObject))} {url : Url}
    {info : MirrorObject} (h : Answer.ofResult result = .found url info) : result = some (.ok (url,info)) := by
  match result with
  | none => cases h
  | some (.error e) =>
    simp only [Answer.ofResult,Answer.ofError] at h
    split at h <;> cases h
  | some (.ok (url',info')) =>
    cases h
    rfl

theorem returns_then {β : Type} {Q : β → Prop} {b : β} (p : Prog α) (h : Q b) :
    (p >>= fun _ => .done b).Returns Q := by
  apply Program.Returns.bind
  apply Program.Returns.of_all
  exact fun _ => h

theorem miss_returns : (s.miss H U artifact).Returns fun out => ∀ url info, out = .found url info →
    artifact.Admits info := by
  have hfill : ∀ limit, (interruptible (Service.serveMiss H U s.store artifact limit).run).Returns fun out =>
      ∀ url info, Answer.ofResult out = .found url info → artifact.Admits info := fun limit =>
    (interruptible_returns (serveMiss_returns limit)).mono fun out hout url info h =>
      hout _ (Answer.of_found h) url info rfl
  unfold Server.miss
  split
  · rename_i c _
    refine .bind (.of_all fun admitted => ?_)
    cases admitted with
    | error e =>
      intro url info h
      have h : Answer.ofResult (some (.error e)) = .found url info := h
      cases Answer.of_found h
    | ok limit =>
      refine .bind ((hfill (some limit)).mono fun out hout => ?_)
      generalize c.finish H = p
      exact returns_then p hout
  · refine .bind ((hfill none).mono fun out hout => ?_)
    exact hout

/-- A redirect is for a licensed artifact of the manifest, and the metadata that comes with it is what
the manifest says. -/
def Redirects (m : Manifest) (key : String) (answer : Answer) : Prop :=
  ∀ url info, answer = .found url info → ∃ artifact, artifact.key.text = key ∧ m.Lists artifact ∧
    artifact.Licensed ∧ artifact.Admits info

theorem artifact_returns (key : String) : (s.artifact H U key).Returns (Redirects s.manifest key) := by
  have refused : ∀ status retry text, Redirects s.manifest key (.refused status retry text) := by
    intro status retry text url info h
    cases h
  have failed : ∀ e, Redirects s.manifest key (Answer.ofError e) := by
    intro e url info h
    have h : Answer.ofResult (some (.error e)) = .found url info := h
    cases Answer.of_found h
  unfold Server.artifact
  split
  · exact refused 404 none _
  · rename_i k hkey
    split
    · exact refused 404 none _
    · rename_i artifact hget
      obtain ⟨hsame,hlists⟩ := Manifest.lists_of_get hget
      have htext : artifact.key.text = key := by
        rw [hsame]
        unfold ArtifactKey.new at hkey
        split at hkey
        · cases hkey
          rfl
        · cases hkey
      refine .bind ((interruptible_returns hit_returns).mono fun out hout => ?_)
      cases out with
      | none => exact refused 500 none _
      | some result =>
        cases result with
        | error e => exact failed e
        | ok found =>
          obtain ⟨hlicense,hallowed⟩ := hout _ rfl _ rfl
          cases found with
          | some found =>
            intro url info h
            cases h
            exact ⟨artifact,htext,hlists,hlicense,hallowed _ _ rfl⟩
          | none =>
            exact miss_returns.mono fun answer hanswer url info h =>
              ⟨artifact,htext,hlists,hlicense,hanswer url info h⟩

theorem hit_only {P : Call → Prop} (hhead : P (.net (.objectHead artifact.key)))
    (hpresign : P (.net (.objectPresign artifact.key))) : (Service.hit artifact).run.Only P := by
  refine .bind_run (?_ : (Service.head artifact).run.Only P) fun found => ?_
  · unfold Service.head
    split
    · trivial
    · exact .perform hhead
  · cases found with
    | none => trivial
    | some info => exact .bind_run (redirect_only info hpresign) fun _ => trivial

section coordinator
variable {c : Coordinator} {P : Call → Prop}

theorem admitFill_only (hcache : ∀ m, P (.cache m)) (hspace : P (.fs .availableSpace)) (expected : Option ℕ) :
    (c.admitFill expected).run.Only P := by
  have hallowed : ∀ limit, (c.admitLocked limit).run.Only P := by
    intro limit
    refine .bind_run (.lift (.perform (hcache _))) fun state => ?_
    split
    · trivial
    · split
      · trivial
      · split
        · trivial
        · split
          · trivial
          · refine .bind_run (io_only hspace) fun space => ?_
            split
            · trivial
            · exact .lift (.perform (hcache _))
  unfold Coordinator.admitFill
  simp only
  split
  · trivial
  · refine .bind (.perform (hcache _)) fun free => ?_
    cases free with
    | false => trivial
    | true => exact .bind (hallowed _) fun _ => .bind (.perform (hcache _)) fun _ => trivial

theorem finish_only (hcache : ∀ m, P (.cache m)) (hmaintain : (c.maintain H).run.Only P) :
    (c.finish H).Only P := by
  have hdrain : ∀ state, (c.drain H state).Only P := by
    intro state
    unfold Coordinator.drain
    split
    · exact .perform (hcache _)
    · exact .bind (interruptible_only hcache hmaintain) fun _ =>
        .bind (.perform (hcache _)) fun _ => .perform (hcache _)
  unfold Coordinator.finish
  refine .bind (.perform (hcache _)) fun _ => .bind (.perform (hcache _)) fun state => ?_
  refine .bind (.perform (hcache _)) fun _ => ?_
  exact @hdrain _

end coordinator

theorem serveMiss_shelf (hS : Set.InjOn H.hex S) (hl : m.Lists artifact) (hlicense : artifact.Licensed)
    (limit : Option ℕ) : (interruptible (Service.serveMiss H U ds artifact limit).run).Asks
      (shelfSetting H S m.Lists t) (Deposits H S m) (fun _ _ => True) w := by
  have hP := deposits_of_not_puts (H := H) (S := S) (m := m)
  have hserve : (Service.serveMiss H U ds artifact limit).run.Asks (shelfSetting H S m.Lists t) (Deposits H S m)
      (fun _ _ => True) w := by
    refine Program.Asks.bind_run ((upload_shelf hS hl hlicense limit).mono fun out u _ => ?_)
    cases out with
    | error e => exact fun _ _ => trivial
    | ok info =>
      refine quiet_shelf hP (redirect_only info ⟨by simp,?_⟩)
      rintro ⟨key,digest,info,h⟩
      cases h
  exact (interruptible_shelf hP hserve).mono fun _ _ _ => trivial

theorem miss_shelf (hS : Set.InjOn H.hex S) (hl : s.manifest.Lists artifact) (hlicense : artifact.Licensed) :
    (s.miss H U artifact).Asks (shelfSetting H S s.manifest.Lists t) (Deposits H S s.manifest)
      (fun _ _ => True) w := by
  have hP := deposits_of_not_puts (H := H) (S := S) (m := s.manifest)
  unfold Server.miss
  split
  · rename_i c _
    have hallowed : (c.admitFill artifact.expectedBytes).run.Only Call.Quiet :=
      admitFill_only quiet_cache (quiet_fs (by simp)) _
    refine Program.Asks.bind ((quiet_shelf hP hallowed).mono fun admitted u _ => ?_)
    cases admitted with
    | error e => exact fun _ _ => trivial
    | ok limit =>
      refine Program.Asks.bind ((serveMiss_shelf hS hl hlicense (some limit)).mono fun out v _ => ?_)
      have hfinish : (c.finish H).Only Call.Quiet :=
        finish_only quiet_cache (maintain_reclaims.mono Call.quiet_of_reclaims)
      generalize c.finish H = finish at hfinish ⊢
      exact Program.Asks.bind ((quiet_shelf hP hfinish).mono fun _ _ _ _ _ => trivial)
  · exact Program.Asks.bind ((serveMiss_shelf hS hl hlicense none).mono fun _ _ _ _ _ => trivial)

/-- Whatever a request meets, it puts only what its artifact asks for. -/
theorem artifact_shelf (hS : Set.InjOn H.hex S) (key : String) :
    (s.artifact H U key).Asks (shelfSetting H S s.manifest.Lists t) (Deposits H S s.manifest)
      (fun out _ => Redirects s.manifest key out) w := by
  have hP := deposits_of_not_puts (H := H) (S := S) (m := s.manifest)
  have hasks : (s.artifact H U key).Asks (shelfSetting H S s.manifest.Lists t) (Deposits H S s.manifest)
      (fun _ _ => True) w := by
    unfold Server.artifact
    split
    · exact fun _ _ => trivial
    · split
      · exact fun _ _ => trivial
      · rename_i artifact hget
        have hhit : (Service.hit artifact).run.Only Call.Quiet := by
          refine hit_only ⟨by simp,?_⟩ ⟨by simp,?_⟩
          · rintro ⟨key,digest,info,h⟩
            cases h
          · rintro ⟨key,digest,info,h⟩
            cases h
        refine Program.Asks.bind (((quiet_shelf hP (interruptible_only quiet_cache hhit)).returns
          (interruptible_returns hit_returns)).mono ?_)
        rintro out u ⟨-,hout⟩
        match out with
        | none => exact fun _ _ => trivial
        | some (.error e) => exact fun _ _ => trivial
        | some (.ok (some found)) => exact fun _ _ => trivial
        | some (.ok none) => exact miss_shelf hS (Manifest.lists_of_get hget).2 (hout _ rfl _ rfl).1
  exact (hasks.returns (artifact_returns key)).mono fun _ _ h => h.2

/-- A step on the coordinator's memory is nothing to the cache root. -/
theorem Promise.of_cache {c : CacheCall} {r : c.Ret} (h : (Call.cache c).Does t w r w') : Promise H t w w' := by
  by_cases hc : c = .unwind
  · subst hc
    obtain rfl := h.unwind
    refine ⟨fun u hu => ?_,fun hw => hw.of_eq rfl rfl⟩
    have hdropped : Frame u w (w.dropOwned t) := by
      refine ⟨fun _ => Iff.rfl,fun _ => ⟨rfl,rfl⟩,fun id file ho => ?_⟩
      rw [World.lookup_dropOwned]
      exact ⟨fun h => h.1,fun h => ⟨h,fun he => hu (ho.symm.trans he)⟩⟩
    exact hdropped.trans (.release hu)
  · have hsame : w'.locks = w.locks ∧ w'.tmp = w.tmp ∧ w'.blobs = w.blobs ∧ w'.index = w.index := by
      rcases h with ⟨x,hx⟩ | hf
      · cases c with
        | unwind => exact absurd rfl hc
        | writeState state note =>
          cases hx
          cases note <;> exact ⟨rfl,rfl,rfl,rfl⟩
        | _ =>
          simp only [World.exec,World.runCache] at hx
          repeat' split at hx
          all_goals cases hx <;> exact ⟨rfl,rfl,rfl,rfl⟩
      · cases hf
    obtain ⟨hlocks,htmp,hblobs,hindex⟩ := hsame
    exact ⟨fun u _ => ⟨fun name => by rw [hlocks],fun _ => ⟨hblobs,hindex⟩,.of_eq htmp⟩,
      fun hw => hw.of_eq hblobs hindex⟩

/-- Calls that change nothing on disk. -/
def Call.Idle (c : Call) : Prop := c.readOnly = true ∨ ∃ m, c = .cache m

theorem idle_shared {p : Prog α} (hp : p.Only Call.Idle) :
    p.Holds (sharedSetting H t) (fun _ _ => True) w := by
  refine .of_only (A := fun _ => True) hp (fun _ _ _ _ => trivial) ?_ trivial
  rintro c u r u' (hc | ⟨m,rfl⟩) - hstep
  · exact ⟨(guarded_sharedSetting.readOnly hc hstep).1,trivial⟩
  · exact ⟨.of_cache hstep.2.1,trivial⟩

theorem interruptible_shared {p : Prog α} {Q : α → World → Prop} (hp : p.Holds (sharedSetting H t) Q w) :
    (interruptible p).Holds (sharedSetting H t) (fun _ _ => True) w := by
  refine (interruptible_holds (A := fun _ => True) (R := fun _ => True) (fun _ _ _ _ => trivial)
    (fun _ _ _ => trivial) (fun u b u' _ hstep => ?_) (fun u r u' _ hstep => ?_) trivial hp).mono
      fun _ _ _ => trivial
  · exact ⟨.of_cache hstep.2.1,hstep.2.1.panics⟩
  · exact ⟨.of_cache hstep.2.1,fun _ _ => trivial⟩

theorem fetch_shared (limit : Option ℕ) :
    (Service.fetch H U ds artifact limit).run.Holds (sharedSetting H t) (fun _ _ => True) w := by
  have hE := guarded_sharedSetting (H := H) (t := t)
  have hw : Empty False t w := fun h => h.elim
  cases limit with
  | some bytes => exact (getLimited_holds hE bytes hw).mono fun _ _ _ => trivial
  | none => exact (get_holds hE hw).mono fun _ _ _ => trivial

theorem serveMiss_shared (limit : Option ℕ) :
    (Service.serveMiss H U ds artifact limit).run.Holds (sharedSetting H t) (fun _ _ => True) w := by
  have hask : ∀ {c : NetCall} {β : Type} {p : Prog β}, p.Only (fun c' => c' = .net c) → p.Only Call.Idle :=
    fun hp => hp.mono fun c' hc => .inl (by rw [hc]; rfl)
  have hupload : (Service.upload H U ds artifact limit).run.Holds (sharedSetting H t) (fun _ _ => True) w := by
    have hhead : (ExceptT.mk (net (.objectHead artifact.key)) : Op (Option MirrorObject)).run.Only Call.Idle :=
      hask (.perform rfl)
    refine Program.Holds.bind_run ((idle_shared hhead).mono fun out u _ => ?_)
    match out with
    | .error e => trivial
    | .ok (some info) => exact fun _ _ => trivial
    | .ok none =>
      refine Program.Holds.bind_run ((fetch_shared limit).mono fun out v _ => ?_)
      cases out with
      | error e => trivial
      | ok path =>
        refine idle_shared (.bind_run (.lift (entry_only (.inl rfl) fun _ => .inl rfl)) fun found => ?_)
        cases found with
        | none => trivial
        | some entry => exact .bind_run (hask (.perform rfl)) fun _ => trivial
  refine Program.Holds.bind_run (hupload.mono fun out u _ => ?_)
  cases out with
  | error e => trivial
  | ok info => exact idle_shared (redirect_only info (.inl rfl))

theorem blobBytes_shared : Datastore.blobBytes.run.Holds (sharedSetting H t) (fun _ _ => True) w := by
  refine withLock_holds guarded_sharedSetting (A := fun _ => True) (fun _ _ _ _ => trivial)
    (fun _ _ _ _ => trivial) (fun _ _ _ _ _ => trivial) (fun _ _ _ _ _ => trivial) (fun _ _ _ => trivial)
    (fun s _ _ => ?_) trivial
  refine idle_shared (.bind_run (.bind_run (io_only (.inl rfl)) fun _ => trivial) fun found => ?_)
  by_cases h : (found.map Prod.snd).sum < 2^64
  · rw [if_pos h]
    trivial
  · rw [if_neg h]
    trivial

theorem maintain_shared {c : Coordinator} :
    (c.maintain H).run.Holds (sharedSetting H t) (fun _ _ => True) w := by
  refine Program.Holds.bind_run (blobBytes_shared.mono fun out u _ => ?_)
  cases out with
  | error e => trivial
  | ok before =>
    refine Program.Holds.bind_run ((gc_holds guarded_sharedSetting c.policy.maxBytes fun h => h.elim).mono
      fun out v _ => ?_)
    cases out with
    | error e => trivial
    | ok removed =>
      refine Program.Holds.bind_run (blobBytes_shared.mono fun out x _ => ?_)
      cases out with
      | error e => trivial
      | ok after =>
        simp only
        split
        · exact fun _ _ => trivial
        · exact fun _ _ => trivial

theorem finish_shared {c : Coordinator} : (c.finish H).Holds (sharedSetting H t) (fun _ _ => True) w := by
  have hidle : ∀ (m : CacheCall) (u : World), (cache m).Holds (sharedSetting H t) (fun _ _ => True) u :=
    fun m u => idle_shared (.perform (.inr ⟨m,rfl⟩))
  have hdrain : ∀ state u, (c.drain H state).Holds (sharedSetting H t) (fun _ _ => True) u := by
    intro state u
    unfold Coordinator.drain
    split
    · exact hidle _ _
    · exact Program.Holds.bind ((interruptible_shared maintain_shared).mono fun _ _ _ =>
        Program.Holds.bind ((hidle _ _).mono fun _ _ _ => hidle _ _))
  unfold Coordinator.finish
  refine Program.Holds.bind ((hidle _ _).mono fun _ _ _ => Program.Holds.bind ((hidle _ _).mono
    fun state _ _ => ?_))
  refine Program.Holds.bind ((hidle _ _).mono fun _ _ _ => ?_)
  exact @hdrain _ _

theorem miss_shared : (s.miss H U artifact).Holds (sharedSetting H t) (fun _ _ => True) w := by
  unfold Server.miss
  split
  · rename_i c _
    refine Program.Holds.bind ((idle_shared (admitFill_only (fun m => .inr ⟨m,rfl⟩) (.inl rfl) _)).mono
      fun admitted u _ => ?_)
    cases admitted with
    | error e => exact fun _ _ => trivial
    | ok limit =>
      refine Program.Holds.bind ((interruptible_shared (serveMiss_shared (some limit))).mono fun out v _ => ?_)
      have hfinish : (c.finish H).Holds (sharedSetting H t) (fun _ _ => True) v := finish_shared
      generalize c.finish H = finish at hfinish ⊢
      exact Program.Holds.bind (hfinish.mono fun _ _ _ _ _ => trivial)
  · exact Program.Holds.bind ((interruptible_shared (serveMiss_shared none)).mono fun _ _ _ _ _ => trivial)

theorem artifact_shared (key : String) :
    (s.artifact H U key).Holds (sharedSetting H t) (fun _ _ => True) w := by
  unfold Server.artifact
  split
  · exact fun _ _ => trivial
  · split
    · exact fun _ _ => trivial
    · refine Program.Holds.bind ((interruptible_shared (idle_shared (hit_only (.inl rfl) (.inl rfl)))).mono
        fun out u _ => ?_)
      match out with
      | none => exact fun _ _ => trivial
      | some (.error e) => exact fun _ _ => trivial
      | some (.ok (some found)) => exact fun _ _ => trivial
      | some (.ok none) => exact miss_shared

end requests
/-- What a thread does: answer a request, or the operations of some other process. -/
inductive Duty
  | request (key : String)
  | operations (ops : List Operation)

namespace Duty

def program (H : Sha256) (U : UrlCrate) (s : Server) : Duty → Prog (Option Answer)
  | .request key => s.artifact H U key >>= fun answer => .done (some answer)
  | .operations ops => runAll H U ops >>= fun _ => .done none

def Within (listed : Artifact → Prop) : Duty → Prop
  | .request _ => True
  | .operations ops => ∀ op ∈ ops, op.Within listed

def Answers (m : Manifest) (duty : Duty) (out : Option Answer) : Prop :=
  ∀ key answer, duty = .request key → out = some answer → Redirects m key answer

end Duty

/-- A server and whoever else works on its cache root. A thread that is killed is one whose process
ends, or a request whose client disconnects between two workers. -/
def serving (H : Sha256) (U : UrlCrate) (S : Set Bytes) (s : Server) (duty : ThreadId → Duty) :
    System ThreadId Call Call.Ret World (Option Answer) :=
  roster S fun t => (duty t).program H U s

section serving
variable {H : Sha256} {U : UrlCrate} {S : Set Bytes} {s : Server} {duty : ThreadId → Duty} {t : ThreadId}
  {w : World}

theorem duty_shelf (hS : Set.InjOn H.hex S) {duty : Duty} (hduty : duty.Within s.manifest.Lists) :
    (duty.program H U s).Asks (shelfSetting H S s.manifest.Lists t) (Deposits H S s.manifest)
      (fun out _ => duty.Answers s.manifest out) w := by
  cases duty with
  | request key =>
    refine Program.Asks.bind ((artifact_shelf hS key).mono fun answer u hu v _ key' answer' h hout => ?_)
    cases h
    cases hout
    exact hu
  | operations ops =>
    have hP := deposits_of_not_puts (H := H) (S := S) (m := s.manifest)
    refine Program.Asks.bind ((runAll_shelf hP hS s.manifest.onePerKey ops hduty).mono ?_)
    intro _ u _ v _ key answer h
    cases h

theorem duty_promises {duty : Duty} :
    (duty.program H U s).Holds (sharedSetting H t) (fun _ _ => True) w := by
  cases duty with
  | request key => exact Program.Holds.bind ((artifact_shared key).mono fun _ _ _ _ _ => trivial)
  | operations ops => exact Program.Holds.bind ((runAll_holds ops).mono fun _ _ _ _ _ => trivial)

/-- Whatever else happens: the service redirects only to a licensed artifact of the manifest whose
metadata is what the manifest says, and what it puts into the mirror is, under its own digest and length,
content that passed the whole check of its artifact. -/
theorem serving_safe (hS : Set.InjOn H.hex S) (hduty : ∀ t, (duty t).Within s.manifest.Lists)
    {c : Config ThreadId Call Call.Ret World (Option Answer)} (hw : Known H S w)
    (hr : (serving H U S s duty).Reaches (System.init w) c) :
    (∀ t s₀ key url info, duty t = .request key → c.thread t = .finished s₀ (some (.found url info)) →
      ∃ artifact, artifact.key.text = key ∧ s.manifest.Lists artifact ∧ artifact.Licensed ∧
        artifact.Admits info) ∧
    ∀ t s₀ key digest info next, c.thread t = .running s₀ (.call (.net (.objectPut key digest info)) next) →
      ∃ artifact, s.manifest.get key = some artifact ∧ artifact.Licensed ∧ ∃ body,
        info.sha256 = H.hex body ∧ info.bytes = body.length ∧ artifact.Wants H body ∧
          ∀ content, c.state.blobs.lookup digest = some content → H.hex content = info.sha256 →
            content = body := by
  obtain ⟨hknown,-,hfinished,hcalls⟩ := roster_safe hS (fun t w => duty_shelf (U := U) hS (hduty t))
    (fun t w => duty_promises) hw hr
  constructor
  · intro t s₀ key url info hd ht
    exact hfinished t s₀ _ ht key _ hd rfl url info rfl
  · intro t s₀ key digest info next ht
    obtain ⟨artifact,hget,hlicense,body,hbody,hhex,hlen,hwants⟩ := hcalls t s₀ _ next ht key digest info rfl
    refine ⟨artifact,hget,hlicense,body,hhex,hlen,hwants,fun content hcontent hsame => ?_⟩
    exact hS (hknown.within (.inl ⟨_,hcontent⟩)) hbody (hsame.trans hhex)

/-- The sample artifact with a license. -/
def Artifact.redistributable : Artifact := { Artifact.sample with provenance := ⟨"","public-domain",none⟩ }

/-- A request for an artifact that the cache has and the mirror has not. -/
theorem serving_safe_cached :
    let s : Server := ⟨⟨[.redistributable]⟩,⟨⟨"/cache"⟩,none,⟨none⟩,true,false,none⟩,none⟩
    let url : Url := ⟨"https","",none,some "bucket.test",none,"/abc",none,none⟩
    let info : MirrorObject := ⟨Sha256.sample.hex [0x61,0x62,0x63],3,none,none,none,0⟩
    ∃ c, (serving .sample (twoHosts "a.com" "b.org") {[0x61,0x62,0x63]} s fun _ => .request "abc").Reaches
        (System.init .cached) c ∧ c.thread 0 = .finished .cached (some (.found url info)) ∧
      Artifact.redistributable.Admits info := by
  intro s url info
  have hc := contents_cached
  have hr : ∃ events w', ((Duty.request "abc").program .sample (twoHosts "a.com" "b.org") s).Runs
      (fun c w r w' => c.Does 0 w r w' ∧ w'.contents ⊆ {[0x61,0x62,0x63]}) .cached events
      (some (.found url info)) w' :=
    ⟨_,_,.call ⟨.inl ⟨false,rfl⟩,hc _⟩ (.call ⟨.inl ⟨.ok none,rfl⟩,hc _⟩ (.call ⟨.inl ⟨false,rfl⟩,hc _⟩
      (.call ⟨.inl ⟨false,rfl⟩,hc _⟩ (.call ⟨.inl ⟨.ok none,rfl⟩,hc _⟩ (.call ⟨.inl ⟨false,rfl⟩,hc _⟩
        (.call ⟨.inl ⟨(),rfl⟩,hc _⟩ (.call ⟨.inl ⟨false,rfl⟩,hc _⟩ (.call ⟨.inl ⟨(),rfl⟩,hc _⟩
          (.call ⟨.inl ⟨false,rfl⟩,hc _⟩ (.call ⟨.inl ⟨(),rfl⟩,hc _⟩ (.call ⟨.inl ⟨false,rfl⟩,hc _⟩
            (.call ⟨.inl ⟨(),rfl⟩,hc _⟩ (.call ⟨.inl ⟨false,rfl⟩,hc _⟩ (.call ⟨.inl ⟨(),rfl⟩,hc _⟩
              (.call ⟨.inl ⟨false,rfl⟩,hc _⟩ (.call ⟨.inl ⟨(),rfl⟩,hc _⟩ (.call ⟨.inl ⟨false,rfl⟩,hc _⟩
                (.call ⟨.inl ⟨(),rfl⟩,hc _⟩ (.call ⟨.inl ⟨false,rfl⟩,hc _⟩ (.call ⟨.inl ⟨(),rfl⟩,hc _⟩
                  (.call ⟨.inl ⟨false,rfl⟩,hc _⟩ (.call ⟨.inl ⟨(),rfl⟩,hc _⟩ (.call ⟨.inl ⟨false,rfl⟩,hc _⟩
                    (.call ⟨.inl ⟨.ok .stored,rfl⟩,hc _⟩ (.call ⟨.inl ⟨false,rfl⟩,hc _⟩
                      (.call ⟨.inl ⟨.ok url,rfl⟩,hc _⟩ (.call ⟨.inl ⟨false,rfl⟩,hc _⟩
                        (.done _ _))))))))))))))))))))))))))))⟩
  obtain ⟨events,w',hr⟩ := hr
  have hreach : (serving .sample (twoHosts "a.com" "b.org") {[0x61,0x62,0x63]} s fun _ => .request "abc").Reaches
      (System.init .cached) _ :=
    .tail (.head (.launch (t := 0) rfl rfl) (System.reaches_of_runs rfl hr)) (.finish (t := 0) rfl)
  have hknown : Known .sample {[0x61,0x62,0x63]} .cached := ⟨consistent_cached,hc _⟩
  have hwithin : ∀ t : ThreadId, (Duty.request "abc").Within s.manifest.Lists := fun _ => trivial
  obtain ⟨found,-,hlists,-,hallowed⟩ := (serving_safe (Set.injOn_singleton _ _) hwithin hknown hreach).1 0
    .cached "abc" url info rfl rfl
  have hsame : found ∈ [Artifact.redistributable] := List.mem_of_find?_eq_some hlists
  rw [List.mem_singleton] at hsame
  subst hsame
  exact ⟨_,hreach,rfl,hallowed⟩

end serving
end StarfieldDatastore
