import StarfieldDatastore.Consistency
import StarfieldDatastore.Resolving

/-! Threads that share a cache root and use the artifacts of one manifest. What a sidecar
describes passed the check of its artifact, and so does what is read through it. -/
namespace StarfieldDatastore
open Interleaving

/-- The cache is consistent, and all that is on disk is in `S`. -/
structure Known (H : Sha256) (S : Set Bytes) (w : World) : Prop where
  consistent : Consistent H w
  within : w.contents ⊆ S

/-- New sidecars describe what their artifacts ask for. -/
def Vouches (H : Sha256) (S : Set Bytes) (listed : Artifact → Prop) (w w' : World) : Prop :=
  ∀ path sidecar, w'.index.lookup path = some sidecar → w.index.lookup path = some sidecar ∨
    ∃ artifact entry body, listed artifact ∧ path = indexPath artifact.key ∧ sidecar = .parsed entry ∧
      Vouched H S artifact entry body

/-- If the artifact has a sidecar other than `old`, the sidecar describes what it asks for. -/
def Attested (H : Sha256) (S : Set Bytes) (artifact : Artifact) (old : Option IndexEntry) (w : World) : Prop :=
  ∀ entry, w.index.lookup (indexPath artifact.key) = some (.parsed entry) →
    some entry = old ∨ ∃ body, Vouched H S artifact entry body

/-- No two artifacts have one key. -/
def OnePerKey (listed : Artifact → Prop) : Prop :=
  ∀ a b, listed a → listed b → a.key = b.key → a = b

/-- One thread among others that use the listed artifacts. -/
def shelfSetting (H : Sha256) (S : Set Bytes) (listed : Artifact → Prop) (t : ThreadId) :
    Setting Call Call.Ret World where
  step c w r w' := Known H S w ∧ c.Does t w r w' ∧ w'.contents ⊆ S
  rely w w' := Frame t w w' ∧ Vouches H S listed w w' ∧ (Known H S w → Known H S w')
  guar := Vouches H S listed
  rely_refl w := ⟨.refl t w,fun _ _ h => .inl h,id⟩
  rely_trans h h' := by
    refine ⟨h.1.trans h'.1,fun path sidecar hl => ?_,h'.2.2 ∘ h.2.2⟩
    rcases h'.2.1 path sidecar hl with hl | hl
    · exact h.2.1 path sidecar hl
    · exact .inr hl

section shelf
variable {H : Sha256} {S : Set Bytes} {listed : Artifact → Prop} {U : UrlCrate} {ds : Datastore}
  {t : ThreadId} {w w' : World} {artifact : Artifact} {entry : IndexEntry} {old : Option IndexEntry}

theorem Vouches.of_index (h : w'.index = w.index) : Vouches H S listed w w' :=
  fun _ _ hl => .inl (h ▸ hl)

theorem Attested.stable (hone : OnePerKey listed) (hl : listed artifact) (h : Attested H S artifact old w)
    (hw : Vouches H S listed w w') : Attested H S artifact old w' := by
  intro entry he
  rcases hw _ _ he with he | ⟨other,entry',body,hother,hpath,hparsed,hv⟩
  · exact h entry he
  · cases hparsed
    obtain rfl := hone _ _ hl hother (indexPath_injective hpath)
    exact .inr ⟨body,hv⟩

/-- What a blob holds is determined by its name. -/
theorem Known.same (hS : Set.InjOn H.hex S) (h : Known H S w) {digest : String} {body other : Bytes}
    (hb : w.blobs.lookup digest = some body) (ho : other ∈ S) (hd : H.hex other = digest) : body = other :=
  hS (h.within (.inl ⟨digest,hb⟩)) ho ((h.consistent.blob digest body hb).trans hd.symm)

theorem sheltered_shelf : Sheltered False t (shelfSetting H S listed t) where
  does h := h.2.1
  rely h := h.1.tmp
  guar h := .of_index (by rw [h.rest])
  drops h := h.elim

/-- A setting that knows what is on disk. -/
structure Informed (H : Sha256) (S : Set Bytes) (t : ThreadId) (E : Setting Call Call.Ret World) : Prop
    extends Sheltered False t E where
  known : ∀ {c w r w'}, E.step c w r w' → Known H S w
  keeps : ∀ {w w'}, E.rely w w' → Known H S w → Known H S w'

theorem informed_shelf : Informed H S t (shelfSetting H S listed t) where
  toSheltered := sheltered_shelf
  known h := h.1
  keeps h := h.2.2

/-- The three reads of a local hit see the same content. -/
theorem localHit_vouches {E : Setting Call Call.Ret World} {A : World → Prop} (hE : Informed H S t E)
    (hS : Set.InjOn H.hex S) (hA : ∀ s s', E.rely s s' → A s → A s') (hw : A w) :
    (Datastore.localHit H artifact entry).run.Holds E (fun out w' => A w' ∧ ∀ path, out = .ok (some path) →
      path = blobPath entry.digest ∧ ∃ body, Vouched H S artifact entry body) w := by
  have missed : ∀ u (out : Except DatastoreError (Option (List String))), (∀ path, out ≠ .ok (some path)) →
      A u → ∀ v, E.rely u v → A v ∧ ∀ path, out = .ok (some path) →
        path = blobPath entry.digest ∧ ∃ body, Vouched H S artifact entry body :=
    fun u out ho hu v hv => ⟨hA _ _ hv hu,fun path hp => absurd hp (ho path)⟩
  refine Program.Holds.bind_run (Program.Holds.bind ((hE.holds_readOnly (isFile_readOnly _) hA hw).mono
    fun found u hu v hv => ?_))
  replace hu := hA _ _ hv hu
  simp only
  split
  · exact missed v _ (by simp) hu
  · split
    · exact missed v _ (by simp) hu
    · refine holds_io_bind fun x hx r x' hstep => ?_
      have hlen := fun out (h : r = .ok out) => (hE.does (h ▸ hstep)).blobLen
      have hknown := hE.known hstep
      obtain ⟨hg,rfl⟩ := hE.readOnly rfl hstep
      replace hu := hA _ _ hx hu
      refine ⟨hg,?_⟩
      cases r with
      | error e => exact missed x' _ (by simp) hu
      | ok length =>
        obtain ⟨body,hbody,hlength⟩ := hlen length rfl
        -- from here on the content at this address is `body`
        have hin : body ∈ S := hknown.within (.inl ⟨_,hbody⟩)
        have hhex : H.hex body = entry.digest := hknown.consistent.blob _ _ hbody
        simp only
        split
        · exact missed x' _ (by simp) hu
        · rename_i hbytes
          refine Program.Holds.bind_run (holds_io_bind fun y hy r y' hstep => ?_)
          have hread := fun out (h : r = .ok out) => (hE.does (h ▸ hstep)).readBlob
          have hknown := hE.known hstep
          obtain ⟨hg,rfl⟩ := hE.readOnly rfl hstep
          replace hu := hA _ _ hy hu
          refine ⟨hg,?_⟩
          cases r with
          | error e => exact missed y' _ (by simp) hu
          | ok content =>
            obtain rfl := hknown.same hS (hread content rfl) hin hhex
            intro z hz
            replace hu := hA _ _ hz hu
            replace hknown := hE.keeps hz hknown
            simp only
            split
            · exact missed z _ (by simp) hu
            · refine Program.Holds.bind_run ((validate_holds hE.toSheltered rfl (A := fun s => Known H S s ∧ A s)
                (fun s s' hr hs => ⟨hE.keeps hr hs.1,hA _ _ hr hs.2⟩) ⟨hknown,hu⟩).mono ?_)
              rintro out z₁ ⟨hz₁,hvalid⟩
              cases out with
              | error e => exact ⟨hz₁.2,by simp⟩
              | ok passed =>
                refine fun z₂ hz₂ => ⟨hA _ _ hz₂ hz₁.2,fun path hp => ?_⟩
                cases hp
                obtain ⟨hpins,s,s',o,hs,hdoes,hcheck⟩ := hvalid rfl
                obtain rfl := hs.1.same hS hdoes.readBlob hin hhex
                simp only [not_not] at hbytes
                rw [← hbytes,hlength] at hpins
                exact ⟨rfl,o,hin,hhex,hlength.symm.trans hbytes,wants_iff.mpr ⟨hpins,hcheck⟩⟩

/-- `path` leads to what the artifact asks for, and so does its sidecar. -/
structure Shelved (H : Sha256) (S : Set Bytes) (artifact : Artifact) (path : List String) (w : World) :
    Prop where
  path : ∃ entry body, path = blobPath entry.digest ∧ Vouched H S artifact entry body
  attested : Attested H S artifact none w

theorem Attested.vouched {body : Bytes} (h : Attested H S artifact (some entry) w)
    (hv : Vouched H S artifact entry body) : Attested H S artifact none w := by
  intro entry' he
  rcases h entry' he with heq | h
  · cases heq
    exact .inr ⟨body,hv⟩
  · exact .inr h

theorem lookupLocal_vouches (hS : Set.InjOn H.hex S) (hone : OnePerKey listed) (hl : listed artifact) :
    (ds.lookupLocal H artifact).run.Holds (shelfSetting H S listed t) (fun out w' =>
      ∀ found, out = .ok (some found) → Shelved H S artifact found.1 w') w := by
  have hE : Sheltered False t (shelfSetting H S listed t) := sheltered_shelf
  refine Program.Holds.bind_run (holds_io_bind fun u hu r u' hstep => ?_)
  have hread := fun out (h : r = .ok out) => (hE.does (h ▸ hstep)).readSidecar
  obtain ⟨hg,rfl⟩ := hE.readOnly rfl hstep
  refine ⟨hg,?_⟩
  match r with
  | .error e => exact fun v hv found hf => by cases hf
  | .ok none => exact fun v hv x hx found hf => by cases hf
  | .ok (some (.malformed detail)) => exact fun v hv found hf => by cases hf
  | .ok (some (.parsed entry)) =>
    have hfound : Attested H S artifact (some entry) u' := by
      intro entry' he
      rw [← hread _ rfl] at he
      cases he
      exact .inl rfl
    simp only
    split
    · intro v hv
      refine Program.Holds.bind_run ((localHit_vouches informed_shelf hS
        (fun s s' hr hs => hs.stable hone hl hr.2.1) (hfound.stable hone hl hv.2.1)).mono ?_)
      rintro out x ⟨hx,hpath⟩
      match out with
      | .error e => exact fun found hf => by cases hf
      | .ok none => exact fun y hy found hf => by cases hf
      | .ok (some path) =>
        intro y hy found hf
        cases hf
        obtain ⟨rfl,body,hv⟩ := hpath path rfl
        exact ⟨⟨entry,body,rfl,hv⟩,(hx.vouched hv).stable hone hl hy.2.1⟩
    · exact fun v hv found hf => by cases hf

/-- Calls other than those that put an object. -/
def Call.Puts (c : Call) : Prop := ∃ key digest info, c = .net (.objectPut key digest info)

theorem Call.Does.vouches {c : Call} {r : c.Ret} (h : c.Does t w r w')
    (hc : ∀ path entry, c ≠ .fs (.persistSidecar path entry)) : Vouches H S listed w w' := by
  intro path sidecar hl
  have hindex := congrFun h.index path
  left
  cases c with
  | net c => exact hindex.symm.trans hl
  | cache c => exact hindex.symm.trans hl
  | fs c =>
    cases c with
    | persistSidecar path entry => exact absurd rfl (hc path entry)
    | unlinkSidecar path' =>
      rw [hindex] at hl
      cases r with
      | error e => exact hl
      | ok out =>
        simp only [Event.index,Function.update_apply] at hl
        split at hl
        · cases hl
        · exact hl
    | _ => exact hindex.symm.trans hl

theorem course_shelf {P : Call → World → Prop} (hP : ∀ c w, ¬ c.Puts → P c w) (hone : OnePerKey listed)
    (hl : listed artifact) :
    Course H S t (shelfSetting H S listed t) P artifact (fun _ => True) (Shelved H S artifact) where
  toSheltered := sheltered_shelf
  known h := h.1.within
  before _ _ := trivial
  after hw h := ⟨h.path,h.attested.stable hone hl hw.2.1⟩
  allowed {c w} hc _ := hP c w (by rintro ⟨key,digest,info,rfl⟩; cases hc)
  steady hc _ h := ⟨h.2.1.vouches (by rintro path entry rfl; cases hc),trivial⟩
  writing {entry body w} hv _ := by
    refine ⟨hP _ _ (by rintro ⟨key,digest,info,h⟩; cases h),fun r w' hstep => ?_⟩
    have hindex := hstep.2.1.index
    cases r with
    | error e => exact ⟨.of_index (by rw [hstep.2.1.error (by simp)]),trivial⟩
    | ok written =>
      have hlook : ∀ path, w'.index.lookup path = Function.update (fun path => w.index.lookup path)
          (indexPath artifact.key) (some (.parsed entry)) path := fun path => congrFun hindex path
      refine ⟨fun path sidecar hs => ?_,⟨entry,body,rfl,hv⟩,fun entry' he => ?_⟩
      · rw [hlook,Function.update_apply] at hs
        split at hs
        · rename_i hpath
          cases hs
          exact .inr ⟨artifact,entry,body,hl,hpath,rfl,hv⟩
        · exact .inl hs
      · rw [hlook,Function.update_self] at he
        cases he
        exact .inr ⟨body,hv⟩
  syncing h := by
    refine ⟨hP _ _ (by rintro ⟨key,digest,info,h⟩; cases h),fun r w' hstep => ?_⟩
    obtain ⟨hg,rfl⟩ := sheltered_shelf.readOnly rfl hstep
    refine ⟨hg,?_⟩
    cases r with
    | error e => trivial
    | ok synced => exact h
  unlocking h := by
    refine ⟨hP _ _ (by rintro ⟨key,digest,info,h⟩; cases h),fun r w' hstep => ?_⟩
    have hv : Vouches H S listed _ w' := hstep.2.1.vouches (by simp)
    exact ⟨hv,h.path,h.attested.stable hone hl hv⟩

variable {P : Call → World → Prop} {α : Type}

/-- The lock of a key is nothing to the sidecars. -/
theorem withLock_shelf (hP : ∀ c w, ¬ c.Puts → P c w) {name : String} {body : Op α}
    {Q : Except DatastoreError α → World → Prop}
    (hstable : ∀ out s s', (shelfSetting H S listed t).rely s s' → Q out s → Q out s')
    (hsame : ∀ out s s', s'.index = s.index → Q out s → Q out s') (hfail : ∀ e s, Q (.error e) s)
    (hbody : ∀ s, body.run.Asks (shelfSetting H S listed t) P Q s) :
    (withLock name body).run.Asks (shelfSetting H S listed t) P Q w := by
  have hplain : ∀ c w, ¬ Call.Puts (.fs c) → P (.fs c) w := fun c w h => hP _ w h
  refine Program.Asks.bind_run (Program.Asks.perform_bind fun u hu => ?_)
  refine ⟨hplain _ _ (by rintro ⟨key,digest,info,h⟩; cases h),fun r v hstep => ?_⟩
  refine ⟨hstep.2.1.vouches (by simp),?_⟩
  cases r with
  | error e => exact fun x hx y hy => hfail _ y
  | ok locked =>
    intro x hx
    refine Program.Asks.bind ((hbody x).mono fun out y hy => ?_)
    refine Program.Asks.perform_bind fun z hz => ?_
    refine ⟨hplain _ _ (by rintro ⟨key,digest,info,h⟩; cases h),fun r z' hstep => ?_⟩
    refine ⟨hstep.2.1.vouches (by simp),fun v' hv' => ?_⟩
    apply hstable _ _ _ hv'
    rcases hstep.2.1.unlock with rfl | ⟨-,rfl⟩
    · exact hstable _ _ _ hz hy
    · exact hsame _ z _ rfl (hstable _ _ _ hz hy)

theorem Shelved.stable (hone : OnePerKey listed) (hl : listed artifact) {path : List String}
    (hw : Vouches H S listed w w') (h : Shelved H S artifact path w) : Shelved H S artifact path w' :=
  ⟨h.path,h.attested.stable hone hl hw⟩

/-- An operation under the lock of its key that ends in a path. -/
theorem locked_shelf (hP : ∀ c w, ¬ c.Puts → P c w) (hone : OnePerKey listed) (hl : listed artifact)
    {name : String} {body : Op α} {path : α → List String} (hbody : ∀ s, body.run.Asks
      (shelfSetting H S listed t) P (Concluded (fun _ => True) (Shelved H S artifact) path) s) :
    (withLock name body).run.Asks (shelfSetting H S listed t) P
      (Concluded (fun _ => True) (Shelved H S artifact) path) w := by
  apply withLock_shelf hP _ _ (fun _ _ => trivial) hbody
  · exact fun out s s' hr h => h.stable (course_shelf hP hone hl) hr
  · intro out s s' hindex h
    cases out with
    | error e => trivial
    | ok a => exact Shelved.stable hone hl (.of_index hindex) h

theorem getWithBudget_shelf (hP : ∀ c w, ¬ c.Puts → P c w) (hS : Set.InjOn H.hex S) (hone : OnePerKey listed)
    (hl : listed artifact) (budget : Option ℕ) :
    (ds.getWithBudget H U artifact budget).run.Asks (shelfSetting H S listed t) P
      (Concluded (fun _ => True) (Shelved H S artifact) Prod.fst) w := by
  have hC := course_shelf (H := H) (S := S) (t := t) hP hone hl
  rw [getWithBudget_eq]
  apply locked_shelf hP hone hl
  intro s
  apply resolution_asks hC budget
  refine (hC.passes (lookupLocal_vouches hS hone hl) (lookupLocal_only FsCall.steady_of_looks) trivial).mono ?_
  rintro out u ⟨hu,-⟩
  match out with
  | .error e => trivial
  | .ok none => trivial
  | .ok (some found) => exact ⟨trivial,hu found rfl⟩

theorem get_shelf (hP : ∀ c w, ¬ c.Puts → P c w) (hS : Set.InjOn H.hex S) (hone : OnePerKey listed)
    (hl : listed artifact) : (ds.get H U artifact).run.Asks (shelfSetting H S listed t) P
      (Concluded (fun _ => True) (Shelved H S artifact) id) w := by
  refine Program.Asks.bind_run ((getWithBudget_shelf hP hS hone hl none).mono fun out u hu => ?_)
  cases out with
  | error e => exact fun v hv => trivial
  | ok found => exact fun v hv => Shelved.stable hone hl hv.2.1 hu

theorem getLimited_shelf (hP : ∀ c w, ¬ c.Puts → P c w) (hS : Set.InjOn H.hex S) (hone : OnePerKey listed)
    (hl : listed artifact) (limit : ℕ) :
    (ds.getLimited H U artifact limit).run.Asks (shelfSetting H S listed t) P
      (Concluded (fun _ => True) (Shelved H S artifact) id) w := by
  refine Program.Asks.bind_run ((getWithBudget_shelf hP hS hone hl (some limit)).mono fun out u hu => ?_)
  cases out with
  | error e => exact fun v hv => trivial
  | ok found => exact fun v hv => Shelved.stable hone hl hv.2.1 hu

theorem importFile_shelf (hP : ∀ c w, ¬ c.Puts → P c w) (hone : OnePerKey listed) (hl : listed artifact)
    (path : String) : (Datastore.importFile H artifact path).run.Asks (shelfSetting H S listed t) P
      (Concluded (fun _ => True) (Shelved H S artifact) id) w := by
  rw [importFile_eq]
  exact locked_shelf hP hone hl fun s => importing_asks (course_shelf hP hone hl) path trivial

/-- Calls that write no sidecar and put no object. -/
def Call.Quiet (c : Call) : Prop := (∀ path entry, c ≠ .fs (.persistSidecar path entry)) ∧ ¬ c.Puts

theorem Call.quiet_of_reclaims (c : Call) (hc : c.reclaims = true) : c.Quiet := by
  constructor
  · rintro path entry rfl
    cases hc
  · rintro ⟨key,digest,info,rfl⟩
    cases hc

theorem quiet_shelf (hP : ∀ c w, ¬ c.Puts → P c w) {p : Prog α} (hp : p.Only Call.Quiet) :
    p.Asks (shelfSetting H S listed t) P (fun _ _ => True) w := by
  refine .of_allowed (.of_only (A := fun _ => True) hp (fun _ _ _ _ => trivial) ?_ trivial) hp ?_
  · exact fun c s r s' hc _ h => ⟨h.2.1.vouches hc.1,trivial⟩
  · exact fun c s hc => hP c s hc.2

theorem reclaims_shelf (hP : ∀ c w, ¬ c.Puts → P c w) {p : Prog α} (hp : p.Only fun c => c.reclaims = true) :
    p.Asks (shelfSetting H S listed t) P (fun _ _ => True) w :=
  quiet_shelf hP (hp.mono Call.quiet_of_reclaims)

theorem remove_reclaims (key : ArtifactKey) : (ds.remove H key).run.Only fun c => c.reclaims = true := by
  refine withLock_only rfl rfl (withLock_only rfl rfl (.bind_run (readEntry_only _ _ rfl) fun found => ?_))
  cases found with
  | none => trivial
  | some entry =>
    refine .bind_run (io_only rfl) fun _ =>
      .bind_run (.bind_run (entries_only FsCall.reclaims_of_looks) fun _ => trivial) fun referenced => ?_
    split
    · exact io_only rfl
    · trivial

/-- Reads what `get` resolves to into memory. -/
def Datastore.getBytes (H : Sha256) (U : UrlCrate) (ds : Datastore) (artifact : Artifact) : Op Bytes := do
  let path ← ds.get H U artifact
  io (.readBlob (path.getLastD ""))

theorem getBytes_shelf (hP : ∀ c w, ¬ c.Puts → P c w) (hS : Set.InjOn H.hex S) (hone : OnePerKey listed)
    (hl : listed artifact) : (ds.getBytes H U artifact).run.Asks (shelfSetting H S listed t) P
      (fun out _ => ∀ bytes, out = .ok bytes → artifact.Wants H bytes) w := by
  refine Program.Asks.bind_run ((get_shelf hP hS hone hl).mono fun out u hu => ?_)
  cases out with
  | error e => exact fun v hv bytes h => by cases h
  | ok path =>
    obtain ⟨entry,body,rfl,hv⟩ := hu.path
    refine Program.Asks.perform_bind fun x hx => ?_
    refine ⟨hP _ _ (by rintro ⟨key,digest,info,h⟩; cases h),fun r y hstep => ?_⟩
    refine ⟨hstep.2.1.vouches (by simp),fun z hz bytes h => ?_⟩
    cases r with
    | error e => cases h
    | ok content =>
      cases h
      obtain rfl := hstep.1.same hS hstep.2.1.readBlob hv.known hv.digest
      exact hv.wants

/-- An operation that names listed artifacts only. -/
def Operation.Within (listed : Artifact → Prop) : Operation → Prop
  | .get _ artifact | .getLimited _ artifact _ | .importFile artifact _ => listed artifact
  | .remove _ _ | .gc _ _ => True

theorem operation_shelf (hP : ∀ c w, ¬ c.Puts → P c w) (hS : Set.InjOn H.hex S) (hone : OnePerKey listed)
    {op : Operation} (hop : op.Within listed) :
    (op.run H U).Asks (shelfSetting H S listed t) P (fun _ _ => True) w := by
  cases op with
  | get ds artifact =>
    exact Program.Asks.bind ((get_shelf hP hS hone hop).mono fun _ _ _ _ _ => trivial)
  | getLimited ds artifact bytes =>
    exact Program.Asks.bind ((getLimited_shelf hP hS hone hop bytes).mono fun _ _ _ _ _ => trivial)
  | importFile artifact path =>
    exact Program.Asks.bind ((importFile_shelf hP hone hop path).mono fun _ _ _ _ _ => trivial)
  | remove ds key =>
    exact Program.Asks.bind ((reclaims_shelf hP (remove_reclaims key)).mono fun _ _ _ _ _ => trivial)
  | gc ds maxBytes =>
    have hgc : (ds.gc H maxBytes).run.Only fun c => c.reclaims = true :=
      .bind_run gcScan_reclaims fun _ => gcEvict_reclaims _ _ _ _
    exact Program.Asks.bind ((reclaims_shelf hP hgc).mono fun _ _ _ _ _ => trivial)

theorem runAll_shelf (hP : ∀ c w, ¬ c.Puts → P c w) (hS : Set.InjOn H.hex S) (hone : OnePerKey listed)
    (ops : List Operation) (hops : ∀ op ∈ ops, op.Within listed) :
    ∀ {w : World}, (runAll H U ops).Asks (shelfSetting H S listed t) P (fun _ _ => True) w := by
  induction ops with
  | nil => exact fun _ _ => trivial
  | cons op ops ih =>
    intro w
    apply Program.Asks.bind
    refine (operation_shelf hP hS hone (hops op (List.mem_cons_self ..))).mono fun _ _ _ => ?_
    exact ih fun op hop => hops op (List.mem_cons_of_mem _ hop)

end shelf

/-- Threads with a program each. Any step can fail, a thread can be killed between any two steps,
and all that is ever on disk is in `S`. -/
def roster {α : Type} (S : Set Bytes) (program : ThreadId → Prog α) :
    System ThreadId Call Call.Ret World α where
  step t c w r w' := c.Does t w r w' ∧ w'.contents ⊆ S
  launch t _ p := p = program t
  kill t w w' := w' = w.release t

section roster
variable {H : Sha256} {S : Set Bytes} {listed : Artifact → Prop} {α : Type} {program : ThreadId → Prog α}
  {P : Call → World → Prop} {Q : ThreadId → α → Prop} {t : ThreadId} {w : World}

theorem Known.released (h : Known H S w) : Known H S (w.release t) :=
  ⟨h.consistent.of_eq rfl rfl,h.within⟩

/-- The guarantee of a thread: new sidecars describe what their artifacts ask for, and the cache stays
consistent. -/
def shelfGuar (H : Sha256) (S : Set Bytes) (listed : Artifact → Prop) (t : ThreadId) (w w' : World) : Prop :=
  (Vouches H S listed w w' ∧ ∃ c r, (shelfSetting H S listed t).step c w r w') ∧ Promise H t w w'

/-- A program that vouches for its sidecars and keeps the cache consistent does both at each call. -/
theorem shelf_promises {p : Prog α} {R : α → World → Prop} (hS : Set.InjOn H.hex S)
    (hasks : p.Asks (shelfSetting H S listed t) P R w) (hshared : p.Holds (sharedSetting H t) (fun _ _ => True) w) :
    p.Asks { shelfSetting H S listed t with guar := shelfGuar H S listed t } P R w := by
  have hrely : ∀ w w', (shelfSetting H S listed t).rely w w' → Frame t w w' := fun _ _ h => h.1
  refine (hasks.caused.and_guar hrely ?_ hshared).mono fun _ _ h => h.1
  exact fun c w r w' h => ⟨h.1.consistent,h.2.1,hS.mono h.2.2⟩

/-- The rely and guarantee of the threads. -/
def rosterDiscipline (hS : Set.InjOn H.hex S)
    (hasks : ∀ t w, (program t).Asks (shelfSetting H S listed t) P (fun out _ => Q t out) w)
    (hshared : ∀ t w, (program t).Holds (sharedSetting H t) (fun _ _ => True) w) :
    (roster S program).Discipline where
  inv := Known H S
  rely t := (shelfSetting H S listed t).rely
  guar := shelfGuar H S listed
  pre _ _ := True
  post t _ out _ := Q t out
  rely_refl t := (shelfSetting H S listed t).rely_refl
  rely_trans t := (shelfSetting H S listed t).rely_trans
  guar_inv := by
    rintro t w w' ⟨⟨-,c,r,hstep⟩,hpromise⟩ h
    exact ⟨hpromise.consistent h.consistent,hstep.2.2⟩
  guar_rely := by
    rintro t u w w' htu - ⟨⟨hv,c,r,hstep⟩,hpromise⟩
    exact ⟨hpromise.frame u htu.symm,hv,fun h => ⟨hpromise.consistent h.consistent,hstep.2.2⟩⟩
  kill_inv h hw := by
    subst h
    exact hw.released
  kill_rely htu _ h := by
    subst h
    exact ⟨.release htu.symm,.of_index rfl,fun h => h.released⟩
  pre_stable _ _ := trivial
  launch_holds h _ := by
    subst h
    exact (shelf_promises hS (hasks _ _) (hshared _ _)).holds

/-- What each program does among the others it does in every run of the threads. -/
theorem roster_safe (hS : Set.InjOn H.hex S)
    (hasks : ∀ t w, (program t).Asks (shelfSetting H S listed t) P (fun out _ => Q t out) w)
    (hshared : ∀ t w, (program t).Holds (sharedSetting H t) (fun _ _ => True) w)
    {c : Config ThreadId Call Call.Ret World α} (hw : Known H S w)
    (hr : (roster S program).Reaches (System.init w) c) :
    Known H S c.state ∧ Vouches H S listed w c.state ∧
      (∀ t s₀ out, c.thread t = .finished s₀ out → Q t out) ∧
      ∀ t s₀ call next, c.thread t = .running s₀ (.call call next) → P call c.state := by
  let d := rosterDiscipline hS hasks hshared
  have hsound := d.sound_init hw fun _ => trivial
  have hend := d.sound_of_reaches hsound hr
  refine ⟨hend.inv,?_,fun t s₀ out ht => ?_,fun t s₀ call next ht => ?_⟩
  · refine d.kept_of_reaches (P := Vouches H S listed w) ?_ ?_ hsound (fun _ _ h => .inl h) hr
    · intro t s s' _ hg h path sidecar hs
      rcases hg.1.1 path sidecar hs with hs | hs
      · exact h path sidecar hs
      · exact .inr hs
    · rintro t s s' - rfl h
      exact h
  · have hgood := hend.good t
    rw [ht] at hgood
    exact hgood _ (d.rely_refl t _)
  · have hlaunch : ∀ {t s p}, (roster S program).launch t s p → d.pre t s →
        p.Asks (d.setting t) P (d.post t s) s := by
      intro t s p h _
      subst h
      exact shelf_promises hS (hasks _ _) (hshared _ _)
    exact (d.asks_of_reaches hlaunch hw (fun _ => trivial) hr t s₀ _ ht _ (d.rely_refl t _)).1

end roster

/-- What a thread does: a sequence of operations, or the read of one artifact. -/
inductive Errand
  | operations (ops : List Operation)
  | read (ds : Datastore) (artifact : Artifact)

namespace Errand

def program (H : Sha256) (U : UrlCrate) : Errand → Prog (Option (Except DatastoreError Bytes))
  | .operations ops => runAll H U ops >>= fun _ => .done none
  | .read ds artifact => (ds.getBytes H U artifact).run >>= fun out => .done (some out)

def Within (listed : Artifact → Prop) : Errand → Prop
  | .operations ops => ∀ op ∈ ops, op.Within listed
  | .read _ artifact => listed artifact

/-- What is read is what the artifact asks for. -/
def Reads (H : Sha256) (errand : Errand) (out : Option (Except DatastoreError Bytes)) : Prop :=
  ∀ ds artifact bytes, errand = .read ds artifact → out = some (.ok bytes) → artifact.Wants H bytes

end Errand

/-- Threads that run operations on one cache root or read from it. -/
def shelf (H : Sha256) (U : UrlCrate) (S : Set Bytes) (errand : ThreadId → Errand) :
    System ThreadId Call Call.Ret World (Option (Except DatastoreError Bytes)) :=
  roster S fun t => (errand t).program H U

section errands
variable {H : Sha256} {U : UrlCrate} {S : Set Bytes} {listed : Artifact → Prop} {errand : ThreadId → Errand}
  {t : ThreadId} {w : World}

theorem errand_shelf (hS : Set.InjOn H.hex S) (hone : OnePerKey listed) {errand : Errand}
    (he : errand.Within listed) : (errand.program H U).Asks (shelfSetting H S listed t) (fun _ _ => True)
      (fun out _ => errand.Reads H out) w := by
  cases errand with
  | operations ops =>
    refine Program.Asks.bind ((runAll_shelf (fun _ _ _ => trivial) hS hone ops he).mono ?_)
    intro _ u _ v hv ds artifact bytes h
    cases h
  | read ds artifact =>
    refine Program.Asks.bind ((getBytes_shelf (fun _ _ _ => trivial) hS hone he).mono ?_)
    intro out u hu v hv ds' artifact' bytes h hout
    cases h
    exact hu bytes (Option.some.inj hout)

/-- The promise to keep the cache consistent is kept as well. -/
theorem errand_promises {errand : Errand} :
    (errand.program H U).Holds (sharedSetting H t) (fun _ _ => True) w := by
  have hE := guarded_sharedSetting (H := H) (t := t)
  have hw : Empty False t w := fun h => h.elim
  cases errand with
  | operations ops => exact Program.Holds.bind ((runAll_holds ops).mono fun _ _ _ _ _ => trivial)
  | read ds artifact =>
    refine Program.Holds.bind (Program.Holds.mono (Q := fun _ _ => True) ?_ fun _ _ _ _ _ => trivial)
    refine Program.Holds.bind_run ((get_holds hE hw).mono fun out u hu => ?_)
    cases out with
    | error e => trivial
    | ok path => exact holds_io fun v hv r x hstep => ⟨(hE.readOnly rfl hstep).1,fun _ _ => trivial⟩

/-- Whatever the threads do, and whatever fails: what is read through the cache is what its
artifact asks for, and a sidecar that was not there at first leads to such content. -/
theorem shelf_reads (hS : Set.InjOn H.hex S) (hone : OnePerKey listed) (herrand : ∀ t, (errand t).Within listed)
    {c : Config ThreadId Call Call.Ret World (Option (Except DatastoreError Bytes))} (hw : Known H S w)
    (hr : (shelf H U S errand).Reaches (System.init w) c) :
    (∀ t s₀ ds artifact bytes, errand t = .read ds artifact →
      c.thread t = .finished s₀ (some (.ok bytes)) → artifact.Wants H bytes) ∧
    ∀ artifact entry, listed artifact → c.state.index.lookup (indexPath artifact.key) = some (.parsed entry) →
      w.index.lookup (indexPath artifact.key) = some (.parsed entry) ∨
        ∃ body, c.state.blobs.lookup entry.digest = some body ∧ body.length = entry.bytes ∧
          artifact.Wants H body := by
  obtain ⟨hknown,hkept,hfinished,-⟩ := roster_safe hS (fun t w => errand_shelf (U := U) hS hone (herrand t))
    (fun t w => errand_promises) hw hr
  constructor
  · intro t s₀ ds artifact bytes he ht
    exact hfinished t s₀ _ ht ds artifact bytes he rfl
  · intro artifact entry hl hentry
    rcases hkept _ _ hentry with h | ⟨other,entry',body,hother,hpath,hparsed,hv⟩
    · exact .inl h
    · cases hparsed
      obtain rfl := hone _ _ hl hother (indexPath_injective hpath)
      obtain ⟨e,blob,he,hblob,hhex,hlen⟩ := hknown.consistent.sidecar _ _ hentry
      cases he
      obtain rfl := hknown.same hS hblob hv.known hv.digest
      exact .inr ⟨blob,hblob,hlen,hv.wants⟩

theorem contents_cached (locks : String → Option ThreadId) :
    World.contents { World.cached with locks := locks } ⊆ {[0x61,0x62,0x63]} := by
  rintro body (⟨digest,h⟩ | ⟨id,owner,h⟩)
  · by_cases hd : digest = Sha256.sample.hex [0x61,0x62,0x63]
    · rw [World.cached,hd,AList.lookup_insert] at h
      exact (Option.some.inj h).symm
    · rw [World.cached,AList.lookup_insert_ne hd] at h
      cases h
  · cases h

/-- One thread that reads a cached artifact. -/
theorem shelf_reads_cached :
    let ds : Datastore := ⟨⟨"/cache"⟩,none,⟨none⟩,true,false,none⟩
    ∃ c, (shelf .sample (twoHosts "a.com" "b.org") {[0x61,0x62,0x63]} fun _ => .read ds .sample).Reaches
        (System.init .cached) c ∧
      c.thread 0 = .finished .cached (some (.ok [0x61,0x62,0x63])) ∧
      Artifact.sample.Wants .sample [0x61,0x62,0x63] := by
  intro ds
  have hc := contents_cached
  have hr : ∃ events w', ((Errand.read ds .sample).program .sample (twoHosts "a.com" "b.org")).Runs
      (fun c w r w' => c.Does 0 w r w' ∧ w'.contents ⊆ {[0x61,0x62,0x63]}) .cached events
      (some (.ok [0x61,0x62,0x63])) w' :=
    ⟨_,_,.call ⟨.inl ⟨(),rfl⟩,hc _⟩ (.call ⟨.inl ⟨(),rfl⟩,hc _⟩ (.call ⟨.inl ⟨(),rfl⟩,hc _⟩
      (.call ⟨.inl ⟨(),rfl⟩,hc _⟩ (.call ⟨.inl ⟨(),rfl⟩,hc _⟩ (.call ⟨.inl ⟨(),rfl⟩,hc _⟩
        (.call ⟨.inl ⟨(),rfl⟩,hc _⟩ (.call ⟨.inl ⟨(),rfl⟩,hc _⟩ (.done _ _))))))))⟩
  obtain ⟨events,w',hr⟩ := hr
  have hreach : (shelf .sample (twoHosts "a.com" "b.org") {[0x61,0x62,0x63]} fun _ => .read ds .sample).Reaches
      (System.init .cached) _ :=
    .tail (.head (.launch (t := 0) rfl rfl) (System.reaches_of_runs rfl hr)) (.finish (t := 0) rfl)
  have hknown : Known .sample {[0x61,0x62,0x63]} .cached := ⟨consistent_cached,hc _⟩
  have hwithin : ∀ t : ThreadId, (Errand.read ds .sample).Within fun a => a = .sample := fun _ => rfl
  have hreads := (shelf_reads (Set.injOn_singleton _ _) (fun a b ha hb _ => ha.trans hb.symm) hwithin hknown
    hreach).1
  exact ⟨_,hreach,rfl,hreads 0 .cached ds .sample _ rfl rfl⟩

end errands
end StarfieldDatastore
