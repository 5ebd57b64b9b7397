import StarfieldDatastore.Scope
import StarfieldDatastore.Interleaving.Asking

/-! One resolution among other threads: what holds until something is published, and
what the publication establishes. -/
namespace StarfieldDatastore
open Interleaving

/-- The calls of a resolution other than the one that writes the sidecar. -/
def Call.steady : Call → Bool
  | .fs (.lock name) | .fs (.unlock name) => name = Layout.storeLockName
  | .fs (.persistSidecar _ _) | .fs (.unlinkSidecar _) | .fs (.unlinkBlob _) => false
  | .net (.objectHead _) | .net (.objectPut _ _ _) | .net (.objectPresign _) => false
  | .cache _ => false
  | _ => true

/-- The entry describes `body`, one of the contents in `S`, and the artifact asks for it. -/
structure Vouched (H : Sha256) (S : Set Bytes) (artifact : Artifact) (entry : IndexEntry) (body : Bytes) :
    Prop where
  known : body ∈ S
  digest : H.hex body = entry.digest
  bytes : body.length = entry.bytes
  wants : artifact.Wants H body

/-- `A` holds until the sidecar of the artifact is written, and then `B` of the path. What goes
before keeps `A` and is allowed by `P` where `A` holds; all contents are in `S`. -/
structure Course (H : Sha256) (S : Set Bytes) (t : ThreadId) (E : Setting Call Call.Ret World)
    (P : Call → World → Prop) (artifact : Artifact) (A : World → Prop) (B : List String → World → Prop) :
    Prop extends Sheltered False t E where
  known : ∀ {c w r w'}, E.step c w r w' → w.contents ⊆ S
  before : ∀ {w w'}, E.rely w w' → A w → A w'
  after : ∀ {path w w'}, E.rely w w' → B path w → B path w'
  allowed : ∀ {c : Call} {w}, c.steady = true → A w → P c w
  steady : ∀ {c : Call} {w r w'}, c.steady = true → A w → E.step c w r w' → E.guar w w' ∧ A w'
  writing : ∀ {entry body w}, Vouched H S artifact entry body → A w →
    P (.fs (.persistSidecar (indexPath artifact.key) entry)) w ∧ ∀ r w',
      E.step (.fs (.persistSidecar (indexPath artifact.key) entry)) w r w' → E.guar w w' ∧ match r with
        | .ok () => B (blobPath entry.digest) w'
        | .error _ => A w'
  syncing : ∀ {path w}, B path w → P (.fs (.syncIndexDir (indexPath artifact.key))) w ∧ ∀ r w',
    E.step (.fs (.syncIndexDir (indexPath artifact.key))) w r w' → E.guar w w' ∧ match r with
      | .ok () => B path w'
      | .error _ => A w'
  unlocking : ∀ {path w}, B path w → P (.fs (.unlock Layout.storeLockName)) w ∧ ∀ r w',
    E.step (.fs (.unlock Layout.storeLockName)) w r w' → E.guar w w' ∧ B path w'

/-- The end of an operation that returns a path. -/
def Concluded {α : Type} (A : World → Prop) (B : List String → World → Prop) (path : α → List String)
    (out : Except DatastoreError α) (w : World) : Prop :=
  match out with
  | .ok a => B (path a) w
  | .error _ => A w

section course
variable {H : Sha256} {S : Set Bytes} {U : UrlCrate} {ds : Datastore} {t : ThreadId}
  {E : Setting Call Call.Ret World} {P : Call → World → Prop} {artifact : Artifact} {A : World → Prop}
  {B : List String → World → Prop} {w w' : World} {α : Type}

theorem FsCall.steady_of_looks (c : FsCall) (h : c.looks = true) : Call.steady (.fs c) = true := by
  cases c <;> first | rfl | cases h

theorem Concluded.stable (hC : Course H S t E P artifact A B) {path : α → List String}
    {out : Except DatastoreError α} (hw : E.rely w w') (h : Concluded A B path out w) :
    Concluded A B path out w' := by
  cases out with
  | ok a => exact hC.after hw h
  | error e => exact hC.before hw h

theorem receive_steady {producer : Producer (Option α)} {budget : Option ℕ}
    (hp : ∀ rcv, (producer rcv).Only fun c => c.steady = true) :
    (receive H artifact budget producer).Only fun c => c.steady = true := by
  refine .bind (.perform rfl) fun r => ?_
  cases r with
  | error e => trivial
  | ok tmp =>
    apply Program.Only.bind (hp _)
    rintro ⟨r,rcv⟩
    simp only
    match rcv.verdict H artifact r with
    | .error e => exact .bind (.perform rfl) fun _ => trivial
    | .ok none => exact .bind (.perform rfl) fun _ => trivial
    | .ok (some info) => trivial

theorem request_steady {f : Fetcher} {source : Source} (rcv : Receiver) :
    (f.request H U source rcv).Only fun c => c.steady = true := by
  refine .bind (navigate_only (fun _ _ => rfl) rfl) fun r => ?_
  match r with
  | .error e => trivial
  | .ok none => trivial
  | .ok (some (response,download)) =>
    have hread : readBody.Only fun c => c.steady = true := ⟨rfl,fun _ => trivial⟩
    apply Program.Only.bind (copy_only hread (fun _ _ => rfl) _ _)
    rintro ⟨r,rcv'⟩
    cases r <;> trivial

theorem fetch_steady (mirror : Mirror) (key : ArtifactKey) (rcv : Receiver) :
    (mirror.fetch H U key rcv).Only fun c => c.steady = true := by
  cases mirror with
  | http base =>
    apply Program.Only.bind (request_steady _)
    rintro ⟨r,rcv'⟩
    cases r <;> trivial
  | s3 bucket folder =>
    refine .bind (.perform rfl) fun r => ?_
    match r with
    | .error code => trivial
    | .ok none => trivial
    | .ok (some reads) =>
      have hread : readS3.Only fun c => c.steady = true := by
        refine ⟨rfl,fun r => ?_⟩
        cases r <;> trivial
      apply Program.Only.bind (copy_only hread (fun _ _ => rfl) _ _)
      rintro ⟨r,rcv'⟩
      cases r <;> trivial

theorem copyImport_steady (reads : ℕ) (rcv : Receiver) : (do
      match ← copy H readImport reads rcv with
      | (.error e,rcv) => return (.error e,rcv)
      | (.ok (),rcv) => return (.ok (some ()),rcv) :
      Prog (Except DatastoreError (Option Unit) × Receiver)).Only fun c => c.steady = true := by
  have hread : readImport.Only fun c => c.steady = true := ⟨rfl,fun _ => trivial⟩
  apply Program.Only.bind (copy_only hread (fun _ _ => rfl) _ _)
  rintro ⟨r,rcv'⟩
  cases r <;> trivial

namespace Course

/-- A program that writes no sidecar leaves things as they are. -/
theorem passes {p : Prog α} {Q : α → World → Prop} (hC : Course H S t E P artifact A B)
    (h : p.Holds E Q w) (hp : p.Only fun c => c.steady = true) (hw : A w) :
    p.Asks E P (fun a w' => Q a w' ∧ A w') w :=
  .of_holds h hp (fun _ _ => hC.before) (fun _ _ => hC.allowed)
    (fun _ _ _ _ hc hA hs => (hC.steady hc hA hs).2) hw

/-- The same of a program of which only that is of interest. -/
theorem steadily {p : Prog α} (hC : Course H S t E P artifact A B) (hp : p.Only fun c => c.steady = true)
    (hw : A w) : p.Asks E P (fun _ => A) w :=
  (hC.passes (.of_only hp (fun _ _ => hC.before) (fun _ _ _ _ hc hA hs => hC.steady hc hA hs) hw) hp
    hw).mono fun _ _ h => h.2

end Course

theorem layout_publish_steady (tmp : ℕ) (digest : String) :
    (Layout.publish H tmp digest).run.Only fun c => c.steady = true := by
  refine .bind (isFile_only rfl) fun found => ?_
  cases found with
  | true => exact .bind (.bind_run (io_only rfl) fun _ => trivial) fun _ => .bind (.perform rfl) fun _ => trivial
  | false =>
    refine .bind (.bind_run (io_only rfl) fun _ => .bind_run (io_only rfl) fun _ => io_only rfl) fun r => ?_
    cases r with
    | error e => exact .bind (.perform rfl) fun _ => trivial
    | ok moved => exact .bind_run (io_only rfl) fun _ => trivial

/-- Publication leads to the address of the digest, or nowhere. -/
theorem layout_publish_returns (tmp : ℕ) (digest : String) : (Layout.publish H tmp digest).run.Returns
    fun out => ∀ path, out = .ok (some path) → path = blobPath digest := by
  refine .bind (.of_all fun found => ?_)
  cases found with
  | true =>
    refine .bind (.of_all fun actual r path hp => ?_)
    cases actual with
    | error e => cases hp
    | ok actual =>
      simp only [Except.map,Except.ok.injEq] at hp
      split at hp
      · cases hp
        rfl
      · cases hp
  | false =>
    refine .bind (.of_all fun moved => ?_)
    cases moved with
    | error e => exact fun r path hp => by cases hp
    | ok moved =>
      refine .bind_run (.of_all fun r => ?_)
      cases r with
      | ok synced =>
        intro path hp
        cases hp
        rfl
      | error e =>
        intro path hp
        cases hp

theorem writeEntry_asks (hC : Course H S t E P artifact A B) {entry : IndexEntry} {body : Bytes}
    (hv : Vouched H S artifact entry body) (hw : A w) :
    (Layout.writeEntry artifact.key entry).run.Asks E P (Concluded A B fun _ => blobPath entry.digest) w := by
  refine Program.Asks.bind_run ((hC.steadily (io_only rfl) hw).mono fun out u hu => ?_)
  cases out with
  | error e => exact fun x hx => hC.before hx hu
  | ok made =>
    refine Program.Asks.bind_run ((hC.steadily (io_only rfl) hu).mono fun out x hx => ?_)
    cases out with
    | error e => exact fun y hy => hC.before hy hx
    | ok staged =>
      refine Program.Asks.bind_run (Program.Asks.perform_bind fun y hy => ?_)
      obtain ⟨hp,hstep⟩ := hC.writing hv (hC.before hy hx)
      refine ⟨hp,fun r z hz => ?_⟩
      obtain ⟨hg,hr⟩ := hstep r z hz
      refine ⟨hg,?_⟩
      cases r with
      | error e => exact fun z' hz' z'' hz'' => hC.before hz'' (hC.before hz' hr)
      | ok written =>
        intro z' hz'
        refine Program.Asks.perform_bind fun v hv => ?_
        obtain ⟨hp,hstep⟩ := hC.syncing (hC.after hv (hC.after hz' hr))
        refine ⟨hp,fun r x' hx' => ?_⟩
        obtain ⟨hg,hr⟩ := hstep r x' hx'
        refine ⟨hg,fun y' hy' => ?_⟩
        cases r with
        | error e => exact hC.before hy' hr
        | ok synced => exact hC.after hy' hr

theorem publishLocked_asks (hC : Course H S t E P artifact A B) {tmp : ℕ} {entry : IndexEntry} {body : Bytes}
    (hv : Vouched H S artifact entry body) (hw : A w) :
    (publishLocked H artifact tmp entry).run.Asks E P (Concluded A B id) w := by
  refine Program.Asks.bind_run (((hC.steadily (layout_publish_steady _ _) hw).returns
    (layout_publish_returns _ _)).mono fun out u hu => ?_)
  obtain ⟨hu,hpath⟩ := hu
  match out with
  | .error e => exact fun x hx => hC.before hx hu
  | .ok none => exact fun x hx => hC.before hx hu
  | .ok (some path) =>
    obtain rfl := hpath path rfl
    refine Program.Asks.bind_run ((writeEntry_asks hC hv hu).mono fun out x hx => ?_)
    cases out with
    | error e => exact fun y hy => hC.before hy hx
    | ok written => exact fun y hy => hC.after hy hx

theorem publish_asks (hC : Course H S t E P artifact A B) {tmp : ℕ} {entry : IndexEntry} {body : Bytes}
    (hdigest : entry.digest = H.hex body) (hbytes : entry.bytes = body.length)
    (hd : Holding False t tmp body w) (hw : A w) :
    (publish H artifact tmp entry).run.Asks E P (Concluded A B id) w := by
  unfold publish
  rw [hbytes]
  have hvalidate : (validate H artifact (.readTmp tmp) id body.length entry.digest).run.Holds E (fun out w' =>
      Holding False t tmp body w' ∧ (out = .ok () → Validated H artifact body)) w :=
    hdigest ▸ validateTmp_holds hC.toSheltered hd
  refine Program.Asks.bind ((hC.passes hvalidate (validate_only rfl) hw).mono ?_)
  rintro out u ⟨⟨hheld,hvalid⟩,hu⟩
  have dropped : ∀ x, A x → ∀ e : DatastoreError, (do
      let _ ← fs (.dropTmp tmp)
      return .error e : Prog _).Asks E P (Concluded A B id) x := fun x hx e =>
    Program.Asks.bind ((hC.steadily (.perform rfl) hx).mono fun _ y hy z hz => hC.before hz hy)
  cases out with
  | error e => exact dropped u hu e
  | ok passed =>
    refine Program.Asks.perform_bind fun x hx => ?_
    replace hu := hC.before hx hu
    replace hheld := hheld.stable (hC.rely hx)
    have hsteady : Call.steady (.fs (.lock Layout.storeLockName)) = true := rfl
    refine ⟨hC.allowed hsteady hu,fun r y hstep => ?_⟩
    obtain ⟨hg,hy⟩ := hC.steady hsteady hu hstep
    refine ⟨hg,?_⟩
    cases r with
    | error e => exact dropped y hy (.io e)
    | ok locked =>
      have hvouched : Vouched H S artifact entry body := by
        obtain ⟨hpins,hrest⟩ := hvalid rfl
        exact ⟨hC.known hstep (.inr ⟨tmp,t,hheld.file⟩),hdigest.symm,hbytes.symm,wants_iff.mpr ⟨hpins,hrest⟩⟩
      refine Program.Asks.bind ((publishLocked_asks hC hvouched hy).mono fun out z hz => ?_)
      refine Program.Asks.perform_bind fun v hv => ?_
      cases out with
      | error e =>
        refine ⟨hC.allowed rfl (hC.before hv hz),fun r v' hv' => ?_⟩
        obtain ⟨hg,hA⟩ := hC.steady rfl (hC.before hv hz) hv'
        exact ⟨hg,fun x' hx' => hC.before hx' hA⟩
      | ok path =>
        obtain ⟨hp,hstep⟩ := hC.unlocking (hC.after hv hz)
        refine ⟨hp,fun r v' hv' => ?_⟩
        obtain ⟨hg,hB⟩ := hstep r v' hv'
        exact ⟨hg,fun x' hx' => hC.after hx' hB⟩

theorem Course.now (hC : Course H S t E P artifact A B) (hw : A w) {received : Received α} {body : Bytes}
    (hd : received.Delivered H False t body w) :
    nowUnix.Asks E P (fun _ w' => received.Delivered H False t body w' ∧ A w') w :=
  hC.passes (hC.holds_readOnly nowUnix_readOnly (fun _ _ hr hs => hs.stable (hC.rely hr)) hd)
    (nowUnix_only rfl) hw

theorem publishReceived_asks (hC : Course H S t E P artifact A B) {received : Received α} {body : Bytes}
    {layer : Layer} {source etag identity : Option String} (hd : received.Delivered H False t body w)
    (hw : A w) : (Datastore.publishReceived H artifact received layer source etag identity).run.Asks E P
      (Concluded A B Prod.fst) w := by
  refine Program.Asks.bind_run (Program.Asks.bind ((hC.now hw hd).mono fun now u hu v hv => ?_))
  have hdel := hu.1.stable (hC.rely hv)
  refine Program.Asks.bind_run ((publish_asks hC hdel.digest hdel.bytes hdel.holding
    (hC.before hv hu.2)).mono fun out x hx => ?_)
  cases out with
  | ok path => exact fun y hy => hC.after hy hx
  | error e => exact fun y hy => hC.before hy hx

/-- A transfer and the publication of what it delivered. -/
theorem receive_asks (hC : Course H S t E P artifact A B) {producer : Producer (Option α)} {budget : Option ℕ}
    (hs : Streams False t E producer) (hp : ∀ rcv, (producer rcv).Only fun c => c.steady = true)
    (hw : A w) : (receive H artifact budget producer).Asks E P (fun out w' => A w' ∧
      ∀ received, out.1 = .ok (some received) → ∃ body, received.Delivered H False t body w') w := by
  refine (hC.passes (receive_holds hC.toSheltered artifact budget hs fun h => h.elim)
    (receive_steady hp) hw).mono fun out u hu => ⟨hu.2,fun received hr => ?_⟩
  obtain ⟨hend,-⟩ := hu
  cases hend with
  | nothing _ _ hnone => exact absurd hr (hnone received)
  | delivered hok _ =>
    cases hr
    exact ⟨_,hok⟩

theorem fetchFromMirror_asks (hC : Course H S t E P artifact A B) (mirror : Mirror) (budget : Option ℕ)
    (hw : A w) : (Datastore.fetchFromMirror H U artifact mirror budget).Asks E P (fun out w' =>
      match out.1 with
      | .ok (some found) => B found.1 w'
      | _ => A w') w := by
  refine Program.Asks.bind ((receive_asks hC (fetch_streams hC.toSheltered mirror artifact.key)
    (fetch_steady mirror artifact.key) hw).mono ?_)
  rintro ⟨r,left⟩ u ⟨hu,hdelivered⟩
  match r with
  | .error e => exact fun v hv => hC.before hv hu
  | .ok none => exact fun v hv => hC.before hv hu
  | .ok (some received) =>
    obtain ⟨body,hd⟩ := hdelivered received rfl
    refine Program.Asks.bind ((publishReceived_asks hC hd hu).mono fun out v hv x hx => ?_)
    cases out with
    | ok found => exact hC.after hx hv
    | error e => exact hC.before hx hv

theorem fetchFromUpstream_asks (hC : Course H S t E P artifact A B) (source : Source) (budget : Option ℕ)
    (hw : A w) : (ds.fetchFromUpstream H U artifact source budget).Asks E P (fun out w' =>
      Concluded A B Prod.fst out.1 w') w := by
  refine Program.Asks.bind ((receive_asks hC (request_streams hC.toSheltered) request_steady hw).mono ?_)
  rintro ⟨r,left⟩ u ⟨hu,hdelivered⟩
  match r with
  | .error e => exact fun v hv => hC.before hv hu
  | .ok none => exact fun v hv => hC.before hv hu
  | .ok (some received) =>
    obtain ⟨body,hd⟩ := hdelivered received rfl
    exact Program.Asks.bind ((publishReceived_asks hC hd hu).mono fun out v hv x hx => hv.stable hC hx)

theorem trySources_asks (hC : Course H S t E P artifact A B) (sources : List Source) :
    ∀ index budget attempts {w : World}, A w →
      (ds.trySources H U artifact sources index budget attempts).run.Asks E P (Concluded A B Prod.fst) w := by
  induction sources with
  | nil => exact fun _ _ _ w hw u hu => hC.before hu hw
  | cons source sources ih =>
    intro index budget attempts w hw
    refine Program.Asks.bind ((fetchFromUpstream_asks hC source budget hw).mono ?_)
    rintro ⟨r,left⟩ u hu
    cases r with
    | ok found => exact fun v hv => hC.after hv hu
    | error e =>
      simp only
      split
      · exact fun v hv => hC.before hv hu
      · split
        · exact fun v hv => hC.before hv hu
        · exact ih _ _ _ hu

theorem fetchUpstream_asks (hC : Course H S t E P artifact A B) (reason : String) (budget : Option ℕ)
    (hw : A w) : (ds.fetchUpstream H U artifact reason budget).run.Asks E P (Concluded A B Prod.fst) w := by
  unfold Datastore.fetchUpstream
  split
  · exact fun v hv => hC.before hv hw
  · split
    · exact fun v hv => hC.before hv hw
    · exact trySources_asks hC _ _ _ _ hw

theorem fetchChain_asks (hC : Course H S t E P artifact A B) (budget : Option ℕ) (hw : A w) :
    (ds.fetchChain H U artifact budget).run.Asks E P (Concluded A B Prod.fst) w := by
  unfold Datastore.fetchChain
  split
  · exact fetchUpstream_asks hC _ _ hw
  · refine Program.Asks.bind ((fetchFromMirror_asks hC _ budget hw).mono ?_)
    rintro ⟨r,left⟩ u hu
    match r with
    | .ok (some found) => exact fun v hv => hC.after hv hu
    | .ok none => exact fetchUpstream_asks hC _ _ hu
    | .error e =>
      simp only
      split
      · exact fun v hv => hC.before hv hu
      · exact fetchUpstream_asks hC _ _ hu

/-- A resolution under the lock of its key. -/
theorem resolution_asks (hC : Course H S t E P artifact A B) (budget : Option ℕ)
    (hlookup : (ds.lookupLocal H artifact).run.Asks E P (fun out w' => match out with
      | .ok (some found) => A w' ∧ B found.1 w'
      | _ => A w') w) :
    (ds.resolution H U artifact budget).run.Asks E P (Concluded A B Prod.fst) w := by
  refine Program.Asks.bind_run (hlookup.mono fun out u hu => ?_)
  match out with
  | .error e => exact fun v hv => hC.before hv hu
  | .ok none =>
    simp only
    split
    · exact fun v hv => hC.before hv hu
    · exact fetchChain_asks hC _ hu
  | .ok (some (path,entry)) =>
    simp only
    split
    · exact fun v hv => hC.before hv hu.1
    · exact fun v hv => hC.after hv hu.2

/-- An import under the lock of its key. -/
theorem importing_asks (hC : Course H S t E P artifact A B) (path : String) (hw : A w) :
    (Datastore.importing H artifact path).run.Asks E P (Concluded A B id) w := by
  refine Program.Asks.bind_run ((hC.steadily (io_only rfl) hw).mono fun out u hu => ?_)
  cases out with
  | error e => exact fun v hv => hC.before hv hu
  | ok reads =>
    refine Program.Asks.bind_run (Program.Asks.bind ((receive_asks hC
      (copied_streams (copy_streams hC.toSheltered readImport_readOnly reads) hC.toSheltered (some ()))
      (copyImport_steady reads) hu).mono ?_))
    rintro ⟨r,left⟩ v ⟨hv,hdelivered⟩ x hx
    replace hv := hC.before hx hv
    match r with
    | .error e => exact Program.Asks.bind_run fun y hy z hz => hC.before hz (hC.before hy hv)
    | .ok none => exact Program.Asks.bind_run fun y hy z hz => hC.before hz (hC.before hy hv)
    | .ok (some received) =>
      obtain ⟨body,hd⟩ := hdelivered received rfl
      refine Program.Asks.bind_run fun y hy => ?_
      refine Program.Asks.bind_run (Program.Asks.bind ((hC.now (hC.before hy hv)
        ((hd.stable (hC.rely hx)).stable (hC.rely hy))).mono fun now z hz z' hz' => ?_))
      have hdel := hz.1.stable (hC.rely hz')
      exact publish_asks hC hdel.digest hdel.bytes hdel.holding (hC.before hz' hz.2)

end course
end StarfieldDatastore
