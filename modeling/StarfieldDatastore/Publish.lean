import StarfieldDatastore.Receive
import Mathlib.Data.Set.Function

/-! Publication under the store lock, in any setting in which that lock protects the
blobs and the index. -/
namespace StarfieldDatastore
open Interleaving

/-- The contents of all files that have, or may come to have, a digest as their name. -/
def World.contents (w : World) : Set Bytes :=
  {body | (∃ digest, w.blobs.lookup digest = some body) ∨
    ∃ id owner, w.tmp.lookup id = some ⟨owner,body⟩}

/-- SHA-256 tells apart the contents that are present. -/
def NoCollision (H : Sha256) (w : World) : Prop := Set.InjOn H.hex w.contents

/-- Every file under `blobs/` and `tmp/` has one of these contents. -/
def World.holdsOnly (bodies : List Bytes) (w : World) : Bool :=
  w.blobs.entries.all (fun e => e.2 ∈ bodies) && w.tmp.entries.all fun e => e.2.content ∈ bodies

theorem contents_of_holdsOnly {w : World} {bodies : List Bytes} (h : w.holdsOnly bodies = true) :
    w.contents ⊆ {body | body ∈ bodies} := by
  simp only [World.holdsOnly,Bool.and_eq_true,List.all_eq_true,decide_eq_true_eq] at h
  rintro body (⟨digest,hl⟩ | ⟨id,owner,hl⟩)
  · exact h.1 ⟨digest,body⟩ (AList.mem_lookup_iff.mp hl)
  · exact h.2 ⟨id,⟨owner,body⟩⟩ (AList.mem_lookup_iff.mp hl)

theorem noCollision_cached (locks : String → Option ThreadId) :
    NoCollision .sample { World.cached with locks := locks } := by
  have hone : ∀ body ∈ World.contents { World.cached with locks := locks },
      body = [0x61,0x62,0x63] := by
    rintro body (⟨digest,h⟩ | ⟨id,owner,h⟩)
    · by_cases hd : digest = Sha256.sample.hex [0x61,0x62,0x63]
      · rw [World.cached,hd,AList.lookup_insert] at h
        exact (Option.some.inj h).symm
      · rw [World.cached,AList.lookup_insert_ne hd] at h
        cases h
    · cases h
  exact fun body hb body' hb' _ => (hone body hb).trans (hone body' hb').symm

/-- A setting in which SHA-256 tells apart what is on disk after every step. -/
def Exact (H : Sha256) (E : Setting Call Call.Ret World) : Prop :=
  ∀ {c w r w'}, E.step c w r w' → NoCollision H w'

/-- While thread `t` holds the store lock nobody else changes blobs or index, and under it
the thread may take the four steps that change them, each for the right reason. -/
structure Guarded (H : Sha256) (tidy : Prop) (t : ThreadId) (E : Setting Call Call.Ret World) : Prop
    extends Sheltered tidy t E where
  store : ∀ {w w'}, E.rely w w' → w.locks Layout.storeLockName = some t →
    w'.locks Layout.storeLockName = some t ∧ w'.blobs = w.blobs ∧ w'.index = w.index
  locking : ∀ {w name}, w.locks name = none → E.guar w (w.setLock name (some t))
  unlocking : ∀ {w name}, w.locks name = some t → E.guar w (w.setLock name none)
  publishing : ∀ {w : World} {tmp body}, w.locks Layout.storeLockName = some t →
    w.tmp.lookup tmp = some ⟨t,body⟩ →
    (Exact H E → ∀ old, w.blobs.lookup (H.hex body) = some old → H.hex old = H.hex body →
      old = body) →
    E.guar w { w with blobs := w.blobs.insert (H.hex body) body, tmp := w.tmp.erase tmp }
  indexing : ∀ {w : World} {key entry body}, w.locks Layout.storeLockName = some t →
    w.blobs.lookup entry.digest = some body → H.hex body = entry.digest →
    (Exact H E → body.length = entry.bytes) →
    E.guar w { w with index := w.index.insert (indexPath key) (.parsed entry) }
  unindexing : ∀ {w : World} {path}, w.locks Layout.storeLockName = some t →
    E.guar w { w with index := w.index.erase path }
  unlinking : ∀ {w : World} {digest}, w.locks Layout.storeLockName = some t →
    (∀ key entry, w.index.lookup (indexPath key) = some (.parsed entry) → entry.digest ≠ digest) →
    E.guar w { w with blobs := w.blobs.erase digest }

/-- Thread `t` holds the store lock over these blobs and this index. -/
structure Locked (t : ThreadId) (blobs : AList fun _ : String => Bytes)
    (index : AList fun _ : String => Sidecar) (w : World) : Prop where
  store : w.locks Layout.storeLockName = some t
  blobs : w.blobs = blobs
  index : w.index = index

/-- Nobody else is around, and SHA-256 has no collisions. -/
structure Quiet (H : Sha256) (E : Setting Call Call.Ret World) : Prop where
  exact : Exact H E
  still : ∀ s s', E.rely s s' → s' = s

/-- If nobody else is around, the blob is there. -/
def Placed (H : Sha256) (E : Setting Call Call.Ret World) (digest : String) (body : Bytes)
    (w : World) : Prop :=
  Quiet H E → w.blobs.lookup digest = some body

theorem Placed.stable {H : Sha256} {E : Setting Call Call.Ret World} {digest : String} {body : Bytes}
    {w w' : World} (h : Placed H E digest body w) (hw : E.rely w w') : Placed H E digest body w' :=
  fun quiet => quiet.still w w' hw ▸ h quiet

/-- The body passes everything that is checked before it becomes a blob. -/
structure Validated (H : Sha256) (artifact : Artifact) (body : Bytes) : Prop where
  pins : validatePins artifact body.length (H.hex body) = .ok ()
  rest : artifact.check.withoutSha256.checkFile H body = .ok ()

theorem isFile_only {P : Call → Prop} {digest : String} (h : P (.fs (.isBlob digest))) :
    (isFile digest).Only P := by
  refine ⟨h,fun r => ?_⟩
  cases r <;> trivial

theorem isFile_readOnly (digest : String) : (isFile digest).Only fun c => c.readOnly = true :=
  isFile_only rfl

section publish
variable {H : Sha256} {tidy : Prop} {t : ThreadId} {E : Setting Call Call.Ret World} {w w' : World}
  {blobs : AList fun _ : String => Bytes} {index : AList fun _ : String => Sidecar}

theorem Locked.stable (h : Locked t blobs index w) (hE : Guarded H tidy t E) (hw : E.rely w w') :
    Locked t blobs index w' := by
  obtain ⟨hs,hb,hi⟩ := hE.store hw h.store
  exact ⟨hs,hb.trans h.blobs,hi.trans h.index⟩

/-- A step that leaves locks, blobs and index alone. -/
theorem Locked.of_private (h : Locked t blobs index w) (hw : PrivateStep t w w') :
    Locked t blobs index w' := by
  rw [hw.rest]
  exact ⟨h.store,h.blobs,h.index⟩

theorem Holding.unique {tmp : ℕ} {body old : Bytes} {digest : String} (hc : NoCollision H w)
    (h : Holding tidy t tmp body w) (hold : w.blobs.lookup digest = some old)
    (he : H.hex old = H.hex body) : old = body :=
  hc (.inl ⟨digest,hold⟩) (.inr ⟨tmp,t,h.file⟩) he

/-- What is known between the steps of a thread that is about to publish `body`. -/
structure Staged (H : Sha256) (tidy : Prop) (t : ThreadId) (E : Setting Call Call.Ret World)
    (tmp : ℕ) (body : Bytes) (blobs : AList fun _ : String => Bytes)
    (index : AList fun _ : String => Sidecar) (w : World) : Prop where
  holding : Holding tidy t tmp body w
  locked : Locked t blobs index w
  unique : Exact H E → ∀ old, blobs.lookup (H.hex body) = some old → H.hex old = H.hex body →
    old = body

theorem Staged.stable {tmp : ℕ} {body : Bytes} (h : Staged H tidy t E tmp body blobs index w)
    (hE : Guarded H tidy t E) (hw : E.rely w w') : Staged H tidy t E tmp body blobs index w' :=
  ⟨h.holding.stable (hE.rely hw),h.locked.stable hE hw,h.unique⟩

/-- The blob at the digest of `body` hashes to it, and is `body` as far as that can be said. -/
structure Stored (H : Sha256) (E : Setting Call Call.Ret World) (body : Bytes)
    (blobs : AList fun _ : String => Bytes) (blob : Bytes) : Prop where
  file : blobs.lookup (H.hex body) = some blob
  hex : H.hex blob = H.hex body
  same : Exact H E → blob = body

/-- After publication the temporary file is gone, the lock is still held, and on success
the blob is in place. -/
structure Moved (H : Sha256) (tidy : Prop) (t : ThreadId) (E : Setting Call Call.Ret World)
    (body : Bytes) (index : AList fun _ : String => Sidecar)
    (out : Except DatastoreError (Option (List String))) (w : World) : Prop where
  empty : Empty tidy t w
  locked : ∃ blobs, Locked t blobs index w ∧ ∀ path, out = .ok (some path) →
    path = blobPath (H.hex body) ∧ ∃ blob, Stored H E body blobs blob

theorem Moved.stable {body : Bytes} {out} (h : Moved H tidy t E body index out w)
    (hE : Guarded H tidy t E) (hw : E.rely w w') : Moved H tidy t E body index out w' :=
  ⟨h.empty.stable (hE.rely hw),h.locked.imp fun _ hl => ⟨hl.1.stable hE hw,hl.2⟩⟩

theorem Staged.dropped {tmp : ℕ} {body : Bytes} (h : Staged H tidy t E tmp body blobs index w)
    (hE : Guarded H tidy t E) {r : Except IoError Unit}
    (hs : E.step (.fs (.dropTmp tmp)) w r w') {out}
    (hout : ∀ path, out = .ok (some path) →
      path = blobPath (H.hex body) ∧ ∃ blob, Stored H E body blobs blob) :
    E.guar w w' ∧ Moved H tidy t E body index out w' := by
  obtain ⟨hg,he⟩ := hE.dropTmp h.holding hs
  refine ⟨hg,he,blobs,?_,hout⟩
  rcases (hE.does hs).dropTmp with rfl | ⟨rfl,_⟩
  · exact ⟨h.locked.store,h.locked.blobs,h.locked.index⟩
  · exact h.locked

/-- Dropping the temporary file is the last step of the operation. -/
theorem Staged.drop_holds {tmp : ℕ} {body : Bytes} (h : Staged H tidy t E tmp body blobs index w)
    (hE : Guarded H tidy t E) {out : Except DatastoreError (Option (List String))}
    (hout : ∀ path, out = .ok (some path) →
      path = blobPath (H.hex body) ∧ ∃ blob, Stored H E body blobs blob) :
    (do
      let _ ← fs (.dropTmp tmp)
      return out : Prog _).Holds E (fun out w' => Moved H tidy t E body index out w') w := by
  refine Program.Holds.perform_bind fun u hu r u' hstep => ?_
  obtain ⟨hg,hm⟩ := (h.stable hE hu).dropped hE hstep hout
  exact ⟨hg,fun v hv => hm.stable hE hv⟩

theorem keep_holds (hE : Guarded H tidy t E) {tmp : ℕ} {body : Bytes}
    (hw : Staged H tidy t E tmp body blobs index w) :
    (Layout.keep H tmp (H.hex body)).run.Holds E
      (fun out w' => Moved H tidy t E body index out w') w := by
  refine Program.Holds.bind (holds_io_bind fun u hu r u' hstep => ?_)
  have hread := fun out (h : r = .ok out) => (hE.does (h ▸ hstep)).readBlob
  obtain ⟨hg,rfl⟩ := hE.readOnly rfl hstep
  replace hu := hw.stable hE hu
  refine ⟨hg,?_⟩
  cases r with
  | error e => exact fun v hv => (hu.stable hE hv).drop_holds hE (by simp [Except.map])
  | ok old =>
    intro v hv
    refine (hu.stable hE hv).drop_holds hE fun path hpath => ?_
    have hold := hread old rfl
    rw [hu.locked.blobs] at hold
    simp only [Except.map,Except.ok.injEq] at hpath
    split at hpath
    · rename_i he
      cases hpath
      exact ⟨rfl,old,hold,he,fun hexact => hu.unique hexact old hold he⟩
    · cases hpath

/-- The state after the three steps that move a file into place. -/
theorem moveIntoPlace_holds (hE : Guarded H tidy t E) {tmp : ℕ} {body : Bytes}
    (hw : Staged H tidy t E tmp body blobs index w) :
    (Layout.moveIntoPlace tmp (H.hex body)).run.Holds E (fun out w' => match out with
      | .ok () => Empty tidy t w' ∧ Locked t (blobs.insert (H.hex body) body) index w'
      | .error _ => Staged H tidy t E tmp body blobs index w') w := by
  refine holds_io_bind fun u hu r u' hstep => ?_
  obtain ⟨hg,rfl⟩ := hE.readOnly rfl hstep
  replace hu := hw.stable hE hu
  refine ⟨hg,?_⟩
  cases r with
  | error e => exact fun v hv => hu.stable hE hv
  | ok out =>
    refine holds_io_bind fun v hv r v' hstep => ?_
    obtain ⟨hg,rfl⟩ := hE.readOnly rfl hstep
    replace hv := hu.stable hE hv
    refine ⟨hg,?_⟩
    cases r with
    | error e => exact fun x hx => hv.stable hE hx
    | ok out =>
      refine holds_io fun x hx r x' hstep => ?_
      replace hx := hv.stable hE hx
      cases r with
      | error e =>
        have he := (hE.does hstep).error (by simp)
        subst he
        exact ⟨hE.guar (.refl t _),fun y hy => hx.stable hE hy⟩
      | ok out =>
        obtain ⟨file,hl,he⟩ := (hE.does hstep).persistBlob
        rw [hx.holding.file] at hl
        cases hl
        have hg := hE.publishing hx.locked.store hx.holding.file (hx.locked.blobs ▸ hx.unique)
        have hlocked : Locked t (blobs.insert (H.hex body) body) index x' := by
          rw [he]
          exact ⟨hx.locked.store,by simp only [hx.locked.blobs],hx.locked.index⟩
        have hempty : Empty tidy t x' := hx.holding.of_erase (by rw [he])
        exact ⟨he ▸ hg,fun y hy => ⟨hempty.stable (hE.rely hy),hlocked.stable hE hy⟩⟩

theorem place_holds (hE : Guarded H tidy t E) {tmp : ℕ} {body : Bytes}
    (hw : Staged H tidy t E tmp body blobs index w) :
    (Layout.place tmp (H.hex body)).run.Holds E
      (fun out w' => Moved H tidy t E body index out w') w := by
  refine Program.Holds.bind ((moveIntoPlace_holds hE hw).mono fun out u hu => ?_)
  cases out with
  | error e => exact hu.drop_holds hE (by simp)
  | ok done =>
    obtain ⟨hempty,hlocked⟩ := hu
    refine holds_io_bind fun v hv r v' hstep => ?_
    obtain ⟨hg,rfl⟩ := hE.readOnly rfl hstep
    refine ⟨hg,?_⟩
    have moved : ∀ out, (∀ path, out = .ok (some path) → path = blobPath (H.hex body)) →
        Moved H tidy t E body index out v' := fun out hout =>
      ⟨hempty.stable (hE.rely hv),_,hlocked.stable hE hv,
        fun path hpath => ⟨hout path hpath,body,AList.lookup_insert _,rfl,fun _ => rfl⟩⟩
    cases r with
    | error e => exact fun x hx => (moved _ (by simp)).stable hE hx
    | ok out => exact fun x hx => (moved _ (by simp)).stable hE hx

theorem layout_publish_holds (hE : Guarded H tidy t E) {tmp : ℕ} {body : Bytes}
    (hw : Staged H tidy t E tmp body blobs index w) :
    (Layout.publish H tmp (H.hex body)).run.Holds E
      (fun out w' => Moved H tidy t E body index out w') w := by
  refine Program.Holds.bind ((hE.holds_readOnly (isFile_readOnly _)
    (fun _ _ hr hs => hs.stable hE hr) hw).mono fun found u hu => ?_)
  cases found
  · exact place_holds hE hu
  · exact keep_holds hE hu

/-- Under the store lock, with no temporary file left. -/
structure Settled (tidy : Prop) (t : ThreadId) (blobs : AList fun _ : String => Bytes) (w : World) :
    Prop where
  empty : Empty tidy t w
  locked : ∃ index, Locked t blobs index w

theorem Settled.stable (h : Settled tidy t blobs w) (hE : Guarded H tidy t E) (hw : E.rely w w') :
    Settled tidy t blobs w' :=
  ⟨h.empty.stable (hE.rely hw),h.locked.imp fun _ hl => hl.stable hE hw⟩

theorem writeEntry_holds (hE : Guarded H tidy t E) {key : ArtifactKey} {entry : IndexEntry}
    {body : Bytes} (hblob : blobs.lookup entry.digest = some body) (hhex : H.hex body = entry.digest)
    (hbytes : Exact H E → body.length = entry.bytes) (hw : Settled tidy t blobs w) :
    (Layout.writeEntry key entry).run.Holds E (fun _ w' => Settled tidy t blobs w') w := by
  refine holds_io_bind fun u hu r u' hstep => ?_
  replace hu := hw.stable hE hu
  obtain ⟨dirs,rfl⟩ := (hE.does hstep).createIndexDirs
  have hg : PrivateStep t u { u with dirs := dirs } := ⟨rfl,fun _ _ => .refl _ _,fun _ _ => rfl⟩
  obtain ⟨index,hl⟩ := hu.locked
  replace hu : Settled tidy t blobs { u with dirs := dirs } := ⟨hu.empty,index,hl.of_private hg⟩
  refine ⟨hE.guar hg,?_⟩
  cases r with
  | error e => exact fun v hv => hu.stable hE hv
  | ok out =>
    refine holds_io_bind fun v hv r v' hstep => ?_
    obtain ⟨hg,rfl⟩ := hE.readOnly rfl hstep
    replace hv := hu.stable hE hv
    refine ⟨hg,?_⟩
    cases r with
    | error e => exact fun x hx => hv.stable hE hx
    | ok out =>
      refine holds_io_bind fun x hx r x' hstep => ?_
      replace hx := hv.stable hE hx
      obtain ⟨index,hl⟩ := hx.locked
      have written : E.guar x x' ∧ Settled tidy t blobs x' := by
        rcases (hE.does hstep).persistSidecar with rfl | rfl
        · exact ⟨hE.guar (.refl t _),hx⟩
        · exact ⟨hE.indexing hl.store (hl.blobs ▸ hblob) hhex hbytes,
            hx.empty,_,hl.store,hl.blobs,rfl⟩
      refine ⟨written.1,?_⟩
      cases r with
      | error e => exact fun y hy => written.2.stable hE hy
      | ok out =>
        refine holds_io fun y hy r y' hstep => ?_
        obtain ⟨hg,rfl⟩ := hE.readOnly rfl hstep
        exact ⟨hg,fun z hz => (written.2.stable hE hy).stable hE hz⟩

theorem publishLocked_holds (hE : Guarded H tidy t E) {artifact : Artifact} {tmp : ℕ}
    {entry : IndexEntry} {body : Bytes} (hhex : entry.digest = H.hex body)
    (hbytes : entry.bytes = body.length) (hw : Staged H tidy t E tmp body blobs index w) :
    (publishLocked H artifact tmp entry).run.Holds E (fun out w' => ∃ blobs,
      Settled tidy t blobs w' ∧ ∀ path, out = .ok path →
        path = blobPath entry.digest ∧
          (Exact H E → blobs.lookup entry.digest = some body)) w := by
  unfold publishLocked
  rw [hhex]
  refine Program.Holds.bind_run ((layout_publish_holds hE hw).mono fun out u hu => ?_)
  obtain ⟨hempty,blobs',hl,hpath⟩ := hu
  match out with
  | .error e => exact ⟨blobs',⟨hempty,index,hl⟩,by simp⟩
  | .ok none =>
    exact fun v hv => ⟨blobs',Settled.stable ⟨hempty,index,hl⟩ hE hv,by simp⟩
  | .ok (some path) =>
    obtain ⟨rfl,blob,hblob⟩ := hpath path rfl
    refine Program.Holds.bind_run ((writeEntry_holds hE (hhex ▸ hblob.file) (hhex ▸ hblob.hex)
      (fun hexact => by rw [hblob.same hexact,hbytes]) ⟨hempty,index,hl⟩).mono fun out v hv => ?_)
    cases out with
    | error e => exact ⟨blobs',hv,by simp⟩
    | ok done =>
      refine fun x hx => ⟨blobs',hv.stable hE hx,fun path hp => ?_⟩
      cases hp
      exact ⟨rfl,fun hexact => hblob.same hexact ▸ hblob.file⟩

/-- `validate` reads the file once, in some state that satisfies whatever the others keep. -/
theorem validate_holds (hE : Sheltered tidy t E) {artifact : Artifact} {read : FsCall}
    {content : read.Out → Bytes} {bytes : ℕ} {digest : String} {A : World → Prop}
    (hread : read.readOnly = true) (hA : ∀ s s', E.rely s s' → A s → A s') (hw : A w) :
    (validate H artifact read content bytes digest).run.Holds E (fun out w' =>
      A w' ∧ (out = .ok () → validatePins artifact bytes digest = .ok () ∧
        ∃ u u' o, A u ∧ (Call.fs read).Does t u (.ok o) u' ∧
          artifact.check.withoutSha256.checkFile H (content o) = .ok ())) w := by
  unfold validate
  cases hpins : validatePins artifact bytes digest with
  | error e => exact fun u hu => ⟨hA _ _ hu hw,by simp⟩
  | ok done =>
    refine Program.Holds.perform_bind fun u hu r u' hstep => ?_
    have hdoes := hE.does hstep
    obtain ⟨hg,rfl⟩ := hE.readOnly (c := .fs read) hread hstep
    replace hu := hA _ _ hu hw
    refine ⟨hg,?_⟩
    cases r with
    | error e => exact fun v hv => ⟨hA _ _ hv hu,by simp⟩
    | ok out =>
      refine fun v hv => ⟨hA _ _ hv hu,fun hok => ⟨rfl,u',u',out,hu,hdoes,?_⟩⟩
      cases hcheck : artifact.check.withoutSha256.checkFile H (content out) with
      | ok done => rfl
      | error failure => simp [rejectFailure,hcheck] at hok

/-- `validate` on a temporary file, which nobody else touches. -/
theorem validateTmp_holds (hE : Sheltered tidy t E) {artifact : Artifact} {tmp : ℕ} {body : Bytes}
    (hw : Holding tidy t tmp body w) :
    (validate H artifact (.readTmp tmp) id body.length (H.hex body)).run.Holds E (fun out w' =>
      Holding tidy t tmp body w' ∧ (out = .ok () → Validated H artifact body)) w := by
  refine (validate_holds hE rfl (fun _ _ hr hs => hs.stable (hE.rely hr)) hw).mono ?_
  rintro out u ⟨hu,hvalid⟩
  refine ⟨hu,fun hok => ?_⟩
  obtain ⟨hpins,v,v',o,hv,hdoes,hcheck⟩ := hvalid hok
  obtain ⟨file,hl,rfl⟩ := hdoes.readTmp
  rw [hv.file] at hl
  cases hl
  exact ⟨hpins,hcheck⟩

/-- The outcome of `publish`: no temporary file is left, and a path that is returned leads
to the validated body. -/
structure Published (H : Sha256) (tidy : Prop) (t : ThreadId) (E : Setting Call Call.Ret World)
    (artifact : Artifact) (digest : String) (body : Bytes) (out : Except DatastoreError (List String))
    (w : World) : Prop where
  empty : Empty tidy t w
  served : ∀ path, out = .ok path →
    path = blobPath digest ∧ Placed H E digest body w ∧ Validated H artifact body

theorem Published.stable {artifact : Artifact} {digest : String} {body : Bytes} {out}
    (h : Published H tidy t E artifact digest body out w) (hE : Sheltered tidy t E)
    (hw : E.rely w w') : Published H tidy t E artifact digest body out w' :=
  ⟨h.empty.stable (hE.rely hw),fun path hp =>
    ⟨(h.served path hp).1,(h.served path hp).2.1.stable hw,(h.served path hp).2.2⟩⟩

theorem publish_holds (hE : Guarded H tidy t E) {artifact : Artifact} {tmp : ℕ} {entry : IndexEntry}
    {body : Bytes} (hhex : entry.digest = H.hex body) (hbytes : entry.bytes = body.length)
    (hw : Holding tidy t tmp body w) : (publish H artifact tmp entry).run.Holds E
      (Published H tidy t E artifact entry.digest body) w := by
  unfold publish
  rw [hbytes]
  refine Program.Holds.bind (Program.Holds.mono (hhex ▸ validateTmp_holds hE.toSheltered hw) ?_)
  rintro out u ⟨hu,hvalid⟩
  have dropped : ∀ v, Holding tidy t tmp body v → ∀ e : DatastoreError, (do
      let _ ← fs (.dropTmp tmp)
      return .error e : Prog _).Holds E (Published H tidy t E artifact entry.digest body) v := by
    intro v hv e
    refine Program.Holds.perform_bind fun x hx r x' hstep => ?_
    obtain ⟨hg,he⟩ := hE.dropTmp (hv.stable (hE.rely hx)) hstep
    exact ⟨hg,fun y hy => ⟨he.stable (hE.rely hy),by simp⟩⟩
  cases out with
  | error e => exact dropped u hu e
  | ok done =>
    refine Program.Holds.perform_bind fun v hv r v' hstep => ?_
    replace hv := hu.stable (hE.rely hv)
    cases r with
    | error e =>
      have he := (hE.does hstep).error (by simp)
      subst he
      exact ⟨hE.guar (.refl t _),dropped v' hv (.io e)⟩
    | ok out =>
      obtain ⟨hfree,he⟩ := (hE.does hstep).lock
      have hg := hE.locking hfree
      have hstaged : Staged H tidy t E tmp body v'.blobs v'.index v' := by
        have hholding : Holding tidy t tmp body v' := by
          rw [he]
          exact ⟨hv.file,hv.only⟩
        exact ⟨hholding,⟨by simp [he,World.setLock],rfl,rfl⟩,
          fun hexact old hold hh => hholding.unique (hexact hstep) hold hh⟩
      refine ⟨he ▸ hg,Program.Holds.bind ((publishLocked_holds hE hhex hbytes hstaged).mono ?_)⟩
      rintro out x ⟨blobs,hsettled,hpath⟩
      refine Program.Holds.perform_bind fun y hy r y' hstep => ?_
      obtain ⟨hempty,index,hl⟩ := hsettled.stable hE hy
      -- the lock is released over the blobs that were left
      have released : E.guar y y' ∧ Empty tidy t y' ∧ y'.blobs = blobs := by
        rcases (hE.does hstep).unlock with rfl | ⟨ho,rfl⟩
        · exact ⟨hE.guar (.refl t _),hempty,hl.blobs⟩
        · exact ⟨hE.unlocking ho,hempty,hl.blobs⟩
      refine ⟨released.1,fun z hz => Published.stable (w := y') ⟨released.2.1,fun path hp => ?_⟩
        hE.toSheltered hz⟩
      obtain ⟨rfl,hblob⟩ := hpath path hp
      exact ⟨rfl,fun quiet => released.2.2 ▸ hblob quiet.exact,hvalid rfl⟩

end publish
end StarfieldDatastore
