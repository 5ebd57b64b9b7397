import StarfieldDatastore.Publish

/-! The resolution chain in any guarded setting: what a path that is returned leads to,
and how much of the budget it cost. -/
namespace StarfieldDatastore
open Interleaving

/-- If nobody else is around, `path` leads to a validated body of that many bytes, which
hashes to its name. -/
def Serves (H : Sha256) (E : Setting Call Call.Ret World) (artifact : Artifact)
    (path : List String) (bytes : ℕ) (w : World) : Prop :=
  Quiet H E → ∃ body, path = blobPath (H.hex body) ∧ w.blobs.lookup (H.hex body) = some body ∧
    Validated H artifact body ∧ bytes = body.length

section resolve
variable {H : Sha256} {U : UrlCrate} {ds : Datastore} {tidy : Prop} {t : ThreadId}
  {E : Setting Call Call.Ret World} {w w' : World} {artifact : Artifact}

theorem Serves.stable {path : List String} {bytes : ℕ} (h : Serves H E artifact path bytes w)
    (hw : E.rely w w') : Serves H E artifact path bytes w' :=
  fun quiet => quiet.still w w' hw ▸ h quiet

theorem Serves.of_blobs {path : List String} {bytes : ℕ} (h : Serves H E artifact path bytes w)
    (hw : w'.blobs = w.blobs) : Serves H E artifact path bytes w' := by
  intro quiet
  rw [hw]
  exact h quiet

/-- Tidy so far, and if nobody else is around still in the same state. -/
structure Reading (H : Sha256) (tidy : Prop) (t : ThreadId) (E : Setting Call Call.Ret World)
    (w₀ w : World) : Prop where
  empty : Empty tidy t w
  still : Quiet H E → w = w₀

theorem Reading.stable (hE : Sheltered tidy t E) {w₀ : World} (hw : E.rely w w')
    (h : Reading H tidy t E w₀ w) : Reading H tidy t E w₀ w' :=
  ⟨h.empty.stable (hE.rely hw),fun quiet => quiet.still w w' hw ▸ h.still quiet⟩

/-- What a hit on the local layer promises. -/
structure Hit (H : Sha256) (tidy : Prop) (t : ThreadId) (E : Setting Call Call.Ret World)
    (artifact : Artifact) (bytes : ℕ) (out : Except DatastoreError (Option (List String)))
    (w : World) : Prop where
  empty : Empty tidy t w
  served : ∀ path, out = .ok (some path) → Serves H E artifact path bytes w

theorem localHit_holds (hE : Sheltered tidy t E) (entry : IndexEntry) (hw : Empty tidy t w) :
    (Datastore.localHit H artifact entry).run.Holds E (Hit H tidy t E artifact entry.bytes) w := by
  have missed : ∀ u (out : Except DatastoreError (Option (List String))),
      (∀ path, out ≠ .ok (some path)) → Reading H tidy t E w u → ∀ v, E.rely u v →
      Hit H tidy t E artifact entry.bytes out v := fun u out ho hu v hv =>
    ⟨(hu.stable hE hv).empty,fun path hp => absurd hp (ho path)⟩
  have hw : Reading H tidy t E w w := ⟨hw,fun _ => rfl⟩
  refine Program.Holds.bind_run (Program.Holds.bind ((hE.holds_readOnly (isFile_readOnly _)
    (fun _ _ hr hs => hs.stable hE hr) hw).mono fun found u hu => ?_))
  intro u₁ hu₁
  replace hu := hu.stable hE hu₁
  simp only
  split
  · exact missed u₁ _ (by simp) hu
  · split
    · exact missed u₁ _ (by simp) hu
    · refine holds_io_bind fun v hv r v' hstep => ?_
      have hlen := fun out (h : r = .ok out) => (hE.does (h ▸ hstep)).blobLen
      obtain ⟨hg,rfl⟩ := hE.readOnly rfl hstep
      replace hv := hu.stable hE hv
      refine ⟨hg,?_⟩
      cases r with
      | error e => exact missed v' _ (by simp) hv
      | ok length =>
        obtain ⟨body,hbody,hlength⟩ := hlen length rfl
        simp only
        split
        · exact missed v' _ (by simp) hv
        · rename_i hbytes
          refine Program.Holds.bind_run (holds_io_bind fun x hx r x' hstep => ?_)
          have hread := fun out (h : r = .ok out) => (hE.does (h ▸ hstep)).readBlob
          obtain ⟨hg,rfl⟩ := hE.readOnly rfl hstep
          replace hx := hv.stable hE hx
          refine ⟨hg,?_⟩
          cases r with
          | error e => exact missed x' _ (by simp) hx
          | ok content =>
            intro y hy
            replace hx := hx.stable hE hy
            simp only
            split
            · exact missed y _ (by simp) hx
            · rename_i hdigest
              refine Program.Holds.bind_run ((validate_holds hE rfl
                (fun _ _ hr hs => hs.stable hE hr) hx).mono ?_)
              rintro out z ⟨hz,hvalid⟩
              cases out with
              | error e => exact ⟨hz.empty,by simp⟩
              | ok done =>
                refine fun z' hz' => ⟨(hz.stable hE hz').empty,fun path hp quiet => ?_⟩
                cases hp
                obtain ⟨hpins,s,s',o,hs,hdoes,hcheck⟩ := hvalid rfl
                -- alone, the three reads see the same file
                have hbody : w.blobs.lookup entry.digest = some body := hv.still quiet ▸ hbody
                have hcontent : w.blobs.lookup entry.digest = some content := by
                  have := hx.still quiet
                  rw [quiet.still _ _ hy] at this
                  exact this ▸ hread content rfl
                have ho : w.blobs.lookup entry.digest = some o := hs.still quiet ▸ hdoes.readBlob
                obtain rfl : body = content := Option.some.inj (hbody.symm.trans hcontent)
                obtain rfl : body = o := Option.some.inj (hbody.symm.trans ho)
                simp only [not_not] at hbytes hdigest
                rw [← hdigest] at hbody ⊢
                rw [← hbytes,hlength] at hpins ⊢
                exact ⟨body,rfl,by rw [(hz.stable hE hz').still quiet]; exact hbody,⟨hpins,hcheck⟩,rfl⟩

/-- What is known after one attempt to fetch within a budget. -/
structure Fetched (H : Sha256) (tidy : Prop) (t : ThreadId) (E : Setting Call Call.Ret World)
    (artifact : Artifact) (budget left : Option ℕ) (served : Option (List String × ℕ)) (w : World) :
    Prop where
  empty : Empty tidy t w
  within : Within budget left 0
  served : ∀ path bytes, served = some (path,bytes) →
    Serves H E artifact path bytes w ∧ Within budget left bytes

theorem Fetched.stable {budget left : Option ℕ} {served : Option (List String × ℕ)}
    (hE : Sheltered tidy t E) (hw : E.rely w w')
    (h : Fetched H tidy t E artifact budget left served w) :
    Fetched H tidy t E artifact budget left served w' :=
  ⟨h.empty.stable (hE.rely hw),h.within,fun path bytes hs =>
    ⟨(h.served path bytes hs).1.stable hw,(h.served path bytes hs).2⟩⟩

theorem Fetched.failed {budget left : Option ℕ} (h : Empty tidy t w) (hl : Within budget left 0) :
    Fetched H tidy t E artifact budget left none w := ⟨h,hl,by simp⟩

theorem nowUnix_only {P : Call → Prop} (h : P (.fs .now)) : nowUnix.Only P := by
  refine ⟨h,fun r => ?_⟩
  cases r <;> trivial

theorem nowUnix_readOnly : nowUnix.Only fun c => c.readOnly = true := nowUnix_only rfl

theorem publishReceived_holds (hE : Guarded H tidy t E) {α : Type} {received : Received α}
    {body : Bytes} {layer : Layer} {source etag identity : Option String}
    (hw : received.Delivered H tidy t body w) :
    (Datastore.publishReceived H artifact received layer source etag identity).run.Holds E
      (fun out w' => Empty tidy t w' ∧ ∀ path bytes, out = .ok (path,bytes) →
        Serves H E artifact path bytes w' ∧ bytes = body.length) w := by
  refine Program.Holds.bind_run (Program.Holds.bind ((hE.holds_readOnly nowUnix_readOnly
    (fun _ _ hr hs => hs.stable (hE.rely hr)) hw).mono fun now u hu v hv => ?_))
  replace hu := hu.stable (hE.rely hv)
  refine Program.Holds.bind_run ((publish_holds hE hu.digest hu.bytes hu.holding).mono ?_)
  intro out x hx
  cases out with
  | error e => exact ⟨hx.empty,by simp⟩
  | ok path =>
    intro y hy
    replace hx := hx.stable hE.toSheltered hy
    refine ⟨hx.empty,fun path' bytes hp => ?_⟩
    cases hp
    obtain ⟨rfl,hplaced,hvalid⟩ := hx.served path rfl
    refine ⟨fun quiet => ⟨body,?_,?_,hvalid,hu.bytes⟩,hu.bytes⟩
    · rw [← hu.digest]
      rfl
    · rw [← hu.digest]
      exact hplaced quiet

/-- Publication of what was received within a budget. -/
theorem publishWithin_holds (hE : Guarded H tidy t E) {α : Type} {received : Received α}
    {body : Bytes} {layer : Layer} {source etag identity : Option String} {budget left : Option ℕ}
    (hw : received.Delivered H tidy t body w) (hleft : Within budget left body.length) :
    (Datastore.publishReceived H artifact received layer source etag identity).run.Holds E
      (fun out w' => Fetched H tidy t E artifact budget left out.toOption w') w := by
  refine (publishReceived_holds hE hw).mono fun out u hu => ⟨hu.1,fun b hb => ?_,?_⟩
  · exact (hleft b hb).imp fun _ h => ⟨h.1,by omega⟩
  · intro path bytes hs
    cases out with
    | error e => cases hs
    | ok found =>
      cases hs
      obtain ⟨hserves,rfl⟩ := hu.2 path bytes rfl
      exact ⟨hserves,hleft⟩

theorem fetchFromMirror_holds (hE : Guarded H tidy t E) (mirror : Mirror) (budget : Option ℕ)
    (hw : Empty tidy t w) :
    (Datastore.fetchFromMirror H U artifact mirror budget).Holds E (fun out w' =>
      Fetched H tidy t E artifact budget out.2 (out.1.toOption.bind id) w') w := by
  refine Program.Holds.bind ((receive_holds hE.toSheltered artifact budget
    (fetch_streams hE.toSheltered mirror artifact.key) hw).mono ?_)
  rintro ⟨r,left⟩ u hu
  cases hu with
  | nothing hempty hleft hnone =>
    match r with
    | .error e => exact fun v hv => .failed (hempty.stable (hE.rely hv)) hleft
    | .ok none => exact fun v hv => .failed (hempty.stable (hE.rely hv)) hleft
    | .ok (some received) => exact absurd rfl (hnone received)
  | delivered hok hleft =>
    refine Program.Holds.bind ((publishWithin_holds hE hok hleft).mono fun out v hv => ?_)
    intro x hx
    cases out with
    | error e => exact hv.stable hE.toSheltered hx
    | ok found => exact hv.stable hE.toSheltered hx

theorem fetchFromUpstream_holds (hE : Guarded H tidy t E) (source : Source) (budget : Option ℕ)
    (hw : Empty tidy t w) :
    (ds.fetchFromUpstream H U artifact source budget).Holds E (fun out w' =>
      Fetched H tidy t E artifact budget out.2 out.1.toOption w') w := by
  refine Program.Holds.bind ((receive_holds hE.toSheltered artifact budget
    (request_streams hE.toSheltered) hw).mono ?_)
  rintro ⟨r,left⟩ u hu
  cases hu with
  | nothing hempty hleft hnone =>
    match r with
    | .error e => exact fun v hv => .failed (hempty.stable (hE.rely hv)) hleft
    | .ok none => exact fun v hv => .failed (hempty.stable (hE.rely hv)) hleft
    | .ok (some received) => exact absurd rfl (hnone received)
  | delivered hok hleft =>
    exact Program.Holds.bind ((publishWithin_holds hE hok hleft).mono fun out v hv x hx =>
      hv.stable hE.toSheltered hx)

/-- The end of a call: no temporary file is left, and what is returned is served and fits
the budget. -/
structure Resolved (H : Sha256) (tidy : Prop) (t : ThreadId) (E : Setting Call Call.Ret World)
    (artifact : Artifact) (budget : Option ℕ)
    (out : Except DatastoreError (List String × ResolveOutcome)) (w : World) : Prop where
  empty : Empty tidy t w
  served : ∀ path outcome, out = .ok (path,outcome) →
    Serves H E artifact path outcome.bytes w ∧ ∀ b, budget = some b → outcome.bytes ≤ b

theorem Resolved.stable {budget : Option ℕ} {out} (hE : Sheltered tidy t E) (hw : E.rely w w')
    (h : Resolved H tidy t E artifact budget out w) : Resolved H tidy t E artifact budget out w' :=
  ⟨h.empty.stable (hE.rely hw),fun path outcome hs =>
    ⟨(h.served path outcome hs).1.stable hw,(h.served path outcome hs).2⟩⟩

theorem Resolved.failed {budget : Option ℕ} (e : DatastoreError) (h : Empty tidy t w) :
    Resolved H tidy t E artifact budget (.error e) w := ⟨h,by simp⟩

/-- A failure under the part of the budget that was left is one under the whole. -/
theorem Resolved.of_left {budget left : Option ℕ} {out} (hleft : Within budget left 0)
    (h : Resolved H tidy t E artifact left out w) : Resolved H tidy t E artifact budget out w := by
  refine ⟨h.empty,fun path outcome hs => ⟨(h.served path outcome hs).1,fun b hb => ?_⟩⟩
  obtain ⟨b',hb',hle⟩ := hleft b hb
  have := (h.served path outcome hs).2 b' hb'
  omega

theorem Fetched.resolved {budget left : Option ℕ} {path : List String} {bytes : ℕ} {layer : Layer}
    {index : Option ℕ} (h : Fetched H tidy t E artifact budget left (some (path,bytes)) w) :
    Resolved H tidy t E artifact budget (.ok (path,⟨layer,bytes,index⟩)) w := by
  refine ⟨h.empty,fun path' outcome hp => ?_⟩
  cases hp
  obtain ⟨hserves,hleft⟩ := h.served path bytes rfl
  refine ⟨hserves,fun b hb => ?_⟩
  obtain ⟨b',hb',hle⟩ := hleft b hb
  simp only
  omega

theorem trySources_holds (hE : Guarded H tidy t E) (sources : List Source) :
    ∀ index budget attempts {w : World}, Empty tidy t w →
      (ds.trySources H U artifact sources index budget attempts).run.Holds E
        (Resolved H tidy t E artifact budget) w := by
  induction sources with
  | nil => exact fun _ _ _ w hw u hu => .failed _ (hw.stable (hE.rely hu))
  | cons source sources ih =>
    intro index budget attempts w hw
    refine Program.Holds.bind ((fetchFromUpstream_holds hE source budget hw).mono ?_)
    rintro ⟨r,left⟩ u hu
    cases r with
    | ok found => exact fun v hv => (hu.stable hE.toSheltered hv).resolved
    | error e =>
      simp only
      split
      · exact fun v hv => .failed _ (hu.empty.stable (hE.rely hv))
      · split
        · exact fun v hv => .failed _ (hu.empty.stable (hE.rely hv))
        · exact (ih _ _ _ hu.empty).mono fun _ _ h => h.of_left hu.within

theorem fetchUpstream_holds (hE : Guarded H tidy t E) (reason : String) (budget : Option ℕ)
    (hw : Empty tidy t w) : (ds.fetchUpstream H U artifact reason budget).run.Holds E
      (Resolved H tidy t E artifact budget) w := by
  unfold Datastore.fetchUpstream
  split
  · exact fun v hv => .failed _ (hw.stable (hE.rely hv))
  · split
    · exact fun v hv => .failed _ (hw.stable (hE.rely hv))
    · exact trySources_holds hE _ _ _ _ hw

theorem fetchChain_holds (hE : Guarded H tidy t E) (budget : Option ℕ) (hw : Empty tidy t w) :
    (ds.fetchChain H U artifact budget).run.Holds E (Resolved H tidy t E artifact budget) w := by
  unfold Datastore.fetchChain
  split
  · exact fetchUpstream_holds hE _ _ hw
  · refine Program.Holds.bind ((fetchFromMirror_holds hE _ budget hw).mono ?_)
    rintro ⟨r,left⟩ u hu
    match r with
    | .ok (some (path,bytes)) => exact fun v hv => (hu.stable hE.toSheltered hv).resolved
    | .ok none => exact (fetchUpstream_holds hE _ _ hu.empty).mono fun _ _ h => h.of_left hu.within
    | .error e =>
      simp only
      split
      · exact fun v hv => .failed _ (hu.empty.stable (hE.rely hv))
      · exact (fetchUpstream_holds hE _ _ hu.empty).mono fun _ _ h => h.of_left hu.within

theorem readEntry_only {P : Call → Prop} (layout : Layout) (key : ArtifactKey)
    (h : P (.fs (.readSidecar (indexPath key)))) : (layout.readEntry key).run.Only P := by
  refine .bind_run (.bind (.perform h) fun _ => trivial) fun found => ?_
  split
  · trivial
  · trivial
  · split <;> trivial

theorem readEntry_readOnly (layout : Layout) (key : ArtifactKey) :
    (layout.readEntry key).run.Only fun c => c.readOnly = true :=
  readEntry_only layout key rfl

theorem lookupLocal_holds (hE : Sheltered tidy t E) (hw : Empty tidy t w) :
    (ds.lookupLocal H artifact).run.Holds E (fun out w' => Empty tidy t w' ∧
      ∀ path entry, out = .ok (some (path,entry)) → Serves H E artifact path entry.bytes w') w := by
  refine Program.Holds.bind_run ((hE.holds_readOnly (readEntry_readOnly _ _)
    (fun _ _ hr hs => hs.stable (hE.rely hr)) hw).mono fun out u hu => ?_)
  match out with
  | .error e => exact ⟨hu,by simp⟩
  | .ok none => exact fun v hv => ⟨hu.stable (hE.rely hv),by simp⟩
  | .ok (some entry) =>
    refine Program.Holds.bind_run ((localHit_holds hE entry hu).mono fun out v hv => ?_)
    match out with
    | .error e => exact ⟨hv.empty,by simp⟩
    | .ok none => exact fun x hx => ⟨hv.empty.stable (hE.rely hx),by simp⟩
    | .ok (some path) =>
      refine fun x hx => ⟨hv.empty.stable (hE.rely hx),fun path' entry' hp => ?_⟩
      cases hp
      exact (hv.served path rfl).stable hx

/-- An operation under a lock: the lock itself changes nothing that is claimed. -/
theorem withLock_holds (hE : Guarded H tidy t E) {α : Type} {name : String} {body : Op α}
    {A : World → Prop} {Q : Except DatastoreError α → World → Prop}
    (hA : ∀ s s', E.rely s s' → A s → A s') (hAlock : ∀ s name o, A s → A (s.setLock name o))
    (hQ : ∀ out s s', E.rely s s' → Q out s → Q out s')
    (hQlock : ∀ out s name o, Q out s → Q out (s.setLock name o))
    (hfail : ∀ e s, A s → Q (.error (.io e)) s)
    (hbody : ∀ s, A s → s.locks name = some t → body.run.Holds E Q s) (hw : A w) :
    (withLock name body).run.Holds E Q w := by
  refine holds_io_bind fun u hu r u' hstep => ?_
  replace hu := hA _ _ hu hw
  cases r with
  | error e =>
    have he := (hE.does hstep).error (by simp)
    subst he
    exact ⟨hE.guar (.refl t _),fun v hv => hQ _ _ _ hv (hfail e u' hu)⟩
  | ok out =>
    obtain ⟨hfree,rfl⟩ := (hE.does hstep).lock
    refine ⟨hE.locking hfree,Program.Holds.bind ((hbody _ (hAlock _ _ _ hu)
      (by simp [World.setLock])).mono fun out v hv => ?_)⟩
    refine Program.Holds.perform_bind fun x hx r x' hstep => ?_
    replace hx := hQ _ _ _ hx hv
    rcases (hE.does hstep).unlock with rfl | ⟨ho,rfl⟩
    · exact ⟨hE.guar (.refl t _),fun y hy => hQ _ _ _ hy hx⟩
    · exact ⟨hE.unlocking ho,fun y hy => hQ _ _ _ hy (hQlock _ _ _ _ hx)⟩

theorem Empty.setLock {name : String} {o : Option ThreadId} (h : Empty tidy t w) :
    Empty tidy t (w.setLock name o) := h

theorem getWithBudget_holds (hE : Guarded H tidy t E) (budget : Option ℕ) (hw : Empty tidy t w) :
    (ds.getWithBudget H U artifact budget).run.Holds E (Resolved H tidy t E artifact budget) w := by
  refine withLock_holds hE (fun _ _ hr hs => hs.stable (hE.rely hr)) (fun _ _ _ hs => hs.setLock)
    (fun _ _ _ hr h => h.stable hE.toSheltered hr)
    (fun _ _ _ _ h => ⟨h.empty,fun path outcome hp =>
      ⟨(h.served path outcome hp).1.of_blobs rfl,(h.served path outcome hp).2⟩⟩)
    (fun e s hs => .failed _ hs) (fun s hs _ => ?_) hw
  refine Program.Holds.bind_run ((lookupLocal_holds hE.toSheltered hs).mono ?_)
  rintro out u ⟨hu,hserves⟩
  match out with
  | .error e => exact .failed _ hu
  | .ok none =>
    simp only
    split
    · exact fun v hv => .failed _ (hu.stable (hE.rely hv))
    · exact fetchChain_holds hE budget hu
  | .ok (some (path,entry)) =>
    simp only
    split
    · exact fun v hv => .failed _ (hu.stable (hE.rely hv))
    · rename_i hbudget
      refine fun v hv => ⟨hu.stable (hE.rely hv),fun path' outcome hp => ?_⟩
      cases hp
      refine ⟨(hserves path entry rfl).stable hv,fun b hb => ?_⟩
      simpa [hb] using hbudget

theorem get_holds (hE : Guarded H tidy t E) (hw : Empty tidy t w) :
    (ds.get H U artifact).run.Holds E (fun out w' => Empty tidy t w' ∧
      ∀ path, out = .ok path → ∃ bytes, Serves H E artifact path bytes w') w := by
  refine Program.Holds.bind_run ((getWithBudget_holds hE none hw).mono fun out u hu => ?_)
  match out with
  | .error e => exact ⟨hu.empty,by simp⟩
  | .ok (path,outcome) =>
    refine fun v hv => ⟨hu.empty.stable (hE.rely hv),fun path' hp => ?_⟩
    cases hp
    exact ⟨_,(hu.served path outcome rfl).1.stable hv⟩

theorem getLimited_holds (hE : Guarded H tidy t E) (limit : ℕ) (hw : Empty tidy t w) :
    (ds.getLimited H U artifact limit).run.Holds E (fun out w' => Empty tidy t w' ∧
      ∀ path, out = .ok path → ∃ bytes, Serves H E artifact path bytes w' ∧ bytes ≤ limit) w := by
  refine Program.Holds.bind_run ((getWithBudget_holds hE (some limit) hw).mono fun out u hu => ?_)
  match out with
  | .error e => exact ⟨hu.empty,by simp⟩
  | .ok (path,outcome) =>
    refine fun v hv => ⟨hu.empty.stable (hE.rely hv),fun path' hp => ?_⟩
    cases hp
    obtain ⟨hserves,hle⟩ := hu.served path outcome rfl
    exact ⟨_,hserves.stable hv,hle limit rfl⟩

theorem importFile_holds (hE : Guarded H tidy t E) (path : String) (hw : Empty tidy t w) :
    (Datastore.importFile H artifact path).run.Holds E (fun _ w' => Empty tidy t w') w := by
  refine withLock_holds hE (fun _ _ hr hs => hs.stable (hE.rely hr)) (fun _ _ _ hs => hs.setLock)
    (fun _ _ _ hr hs => hs.stable (hE.rely hr)) (fun _ _ _ _ hs => hs.setLock)
    (fun e s hs => hs) (fun s hs _ => ?_) hw
  refine holds_io_bind fun u hu r u' hstep => ?_
  obtain ⟨hg,rfl⟩ := hE.readOnly rfl hstep
  replace hu := hs.stable (hE.rely hu)
  refine ⟨hg,?_⟩
  cases r with
  | error e => exact fun v hv => hu.stable (hE.rely hv)
  | ok reads =>
    refine Program.Holds.bind_run (Program.Holds.bind ((receive_holds hE.toSheltered artifact none
      (copied_streams (copy_streams hE.toSheltered readImport_readOnly reads) hE.toSheltered
        (some ())) hu).mono ?_))
    rintro ⟨r,left⟩ v hv x hx
    cases hv with
    | nothing hempty hleft hnone =>
      replace hempty := hempty.stable (hE.rely hx)
      match r with
      | .error e => exact fun y hy => hempty.stable (hE.rely hy)
      | .ok none =>
        refine Program.Holds.bind_run fun y hy z hz => ?_
        exact (hempty.stable (hE.rely hy)).stable (hE.rely hz)
      | .ok (some received) => exact absurd rfl (hnone received)
    | delivered hok hleft =>
      refine Program.Holds.bind_run fun y hy => ?_
      replace hok := (hok.stable (hE.rely hx)).stable (hE.rely hy)
      refine Program.Holds.bind_run (Program.Holds.bind ((hE.holds_readOnly nowUnix_readOnly
        (fun _ _ hr hs => hs.stable (hE.rely hr)) hok).mono fun now z hz z' hz' => ?_))
      replace hz := hz.stable (hE.rely hz')
      exact (publish_holds hE hz.digest hz.bytes hz.holding).mono fun out u h => h.empty

end resolve
end StarfieldDatastore
