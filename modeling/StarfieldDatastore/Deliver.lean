import StarfieldDatastore.Store
import StarfieldDatastore.Accepts
import StarfieldDatastore.Interleaving.Total
import Mathlib.Data.Fintype.EquivFin
import Mathlib.Data.Set.Function

/-! Streaming against the plain meaning of a check: when nothing fails, a body that is
received in chunks and published is accepted exactly when it satisfies the check. -/
namespace StarfieldDatastore
open Interleaving

/-- A step of the system in which no filesystem call fails. -/
def Call.Succeeds (t : ThreadId) : (c : Call) → World → c.Ret → World → Prop
  | .fs c, w, r, w' => ∃ x out, r = .ok out ∧ w.runFs t c x = some (.ok out,w')
  | c, w, r, w' => c.Works t w r w'

/-- Hands the chunks to the sink one by one, until one is refused. -/
def offer (H : Sha256) : List Bytes → Producer (Option Unit)
  | [], w => return (.ok (some ()),w)
  | chunk :: chunks, w => do
    match ← w.write H chunk with
    | (.error e,w) => return (.error (.io e),w)
    | (.ok (),w) => offer H chunks w

/-- `receive` followed by `publish`; the rest of the sidecar is given. -/
def deliver (H : Sha256) (artifact : Artifact) (chunks : List Bytes) (entry : IndexEntry) :
    Op (List String) := do
  let (received,_) ← receive H artifact none (offer H chunks)
  match ← received with
  | none => throw (.config "the chunks are always served")
  | some received =>
    publish H artifact received.tmp { entry with digest := received.digest, bytes := received.bytes }

section calls
variable {t : ThreadId} {w : World} {α : Type} {c : FsCall}

theorem total_fs_bind {f : Except IoError c.Out → Prog α} {Q : α → World → Prop}
    (hcan : ∃ x out u, w.runFs t c x = some (.ok out,u))
    (h : ∀ x out u, w.runFs t c x = some (.ok out,u) → (f (.ok out)).Total (Call.Succeeds t) Q u) :
    (fs c >>= f).Total (Call.Succeeds t) Q w := by
  refine Program.Total.perform_bind ?_ fun r u hu => ?_
  · obtain ⟨x,out,u,hu⟩ := hcan
    exact ⟨.ok out,u,x,out,rfl,hu⟩
  · obtain ⟨x,out,rfl,hu⟩ := hu
    exact h x out u hu

/-- A filesystem step with one possible outcome. -/
theorem total_fs {f : Except IoError c.Out → Prog α} {Q : α → World → Prop} (out : c.Out)
    (u : World) [Nonempty c.Choice] (hstep : ∀ x, w.runFs t c x = some (.ok out,u))
    (h : (f (.ok out)).Total (Call.Succeeds t) Q u) :
    (fs c >>= f).Total (Call.Succeeds t) Q w := by
  refine total_fs_bind ⟨Classical.arbitrary _,out,u,hstep _⟩ fun x out' u' hu => ?_
  rw [hstep x] at hu
  cases hu
  exact h

theorem total_io {f : c.Out → Op α} {Q : Except DatastoreError α → World → Prop} (out : c.Out)
    (u : World) [Nonempty c.Choice] (hstep : ∀ x, w.runFs t c x = some (.ok out,u))
    (h : (f out).run.Total (Call.Succeeds t) Q u) :
    (io c >>= f).run.Total (Call.Succeeds t) Q w := by
  refine ⟨⟨.ok out,u,Classical.arbitrary _,out,rfl,hstep _⟩,fun r u' hu => ?_⟩
  obtain ⟨x,out',rfl,hu⟩ := hu
  rw [hstep x] at hu
  cases hu
  exact h

theorem total_io_last {Q : Except DatastoreError c.Out → World → Prop} (out : c.Out)
    (u : World) [Nonempty c.Choice] (hstep : ∀ x, w.runFs t c x = some (.ok out,u))
    (h : Q (.ok out) u) : (io c).run.Total (Call.Succeeds t) Q w := by
  refine ⟨⟨.ok out,u,Classical.arbitrary _,out,rfl,hstep _⟩,fun r u' hu => ?_⟩
  obtain ⟨x,out',rfl,hu⟩ := hu
  rw [hstep x] at hu
  cases hu
  exact h

end calls

/-- Nothing but temporary files and the byte counter has changed. -/
structure Untouched (w₀ w : World) : Prop where
  blobs : w.blobs = w₀.blobs
  index : w.index = w₀.index
  dirs : w.dirs = w₀.dirs
  locks : w.locks = w₀.locks

namespace Receiver
variable {H : Sha256} {t : ThreadId} {w₀ w : World} {check : ContentCheck} {tmp : ℕ}
  {rcv : Receiver}

/-- A sink without a budget that has let everything in so far. -/
structure Seen (H : Sha256) (check : ContentCheck) (rcv : Receiver) : Prop where
  artifact : rcv.check = check
  budget : rcv.budget = none
  limit : rcv.limitExceeded = false
  rejected : rcv.rejected = none
  bytes : rcv.bytes = rcv.hashed.length
  head : rcv.head = rcv.hashed.take prefixBytes
  checked : rcv.prefixChecked = decide (prefixBytes ≤ rcv.hashed.length)
  passed : prefixBytes ≤ rcv.hashed.length →
    check.checkPrefix H (rcv.hashed.take prefixBytes) = .ok ()

/-- The early check has refused the first bytes. -/
structure Refused (H : Sha256) (check : ContentCheck) (offered : Bytes) (rcv : Receiver) : Prop where
  limit : rcv.limitExceeded = false
  rejected : ∃ failure, rcv.rejected = some failure
  full : prefixBytes ≤ offered.length
  failed : check.checkPrefix H (offered.take prefixBytes) ≠ .ok ()

/-- The window after one more chunk: the first bytes of what has been offered. -/
theorem head_append {hashed : Bytes} (hlen : hashed.length < prefixBytes) (buf : Bytes) :
    hashed++buf.take (min (prefixBytes-hashed.length) buf.length) =
      (hashed++buf).take prefixBytes := by
  rw [List.take_append,List.take_of_length_le (l := hashed) (by omega),← List.take_take,
    List.take_length]

/-- Showing one more chunk to the check either keeps the sink going or refuses the body
by its first bytes. -/
theorem Seen.showHead (h : Seen H check rcv) (buf : Bytes) :
    ((rcv.showHead H buf).rejected = none ∧ Seen H check { rcv.showHead H buf with
      hashed := rcv.hashed++buf, bytes := rcv.bytes+buf.length }) ∨
    Refused H check (rcv.hashed++buf) (rcv.showHead H buf) := by
  have hbytes : rcv.bytes+buf.length = (rcv.hashed++buf).length := by
    rw [h.bytes,List.length_append]
  unfold Receiver.showHead
  by_cases hfull : prefixBytes ≤ rcv.hashed.length
  · have htake : (rcv.hashed++buf).take prefixBytes = rcv.hashed.take prefixBytes :=
      List.take_append_of_le_length hfull
    have hfull' : prefixBytes ≤ (rcv.hashed++buf).length := hfull.trans (by simp)
    have hchecked : rcv.prefixChecked = true := by simpa using h.checked.trans (decide_eq_true hfull)
    rw [if_pos hchecked]
    exact .inl ⟨h.rejected,⟨h.artifact,h.budget,h.limit,h.rejected,hbytes,htake ▸ h.head,
      hchecked.trans (decide_eq_true hfull').symm,fun _ => htake ▸ h.passed hfull⟩⟩
  · have hchecked : rcv.prefixChecked = false := h.checked.trans (decide_eq_false hfull)
    have hhead : rcv.head = rcv.hashed := h.head.trans (List.take_of_length_le (by omega))
    have hwindow : rcv.head++buf.take (min (prefixBytes-rcv.head.length) buf.length) =
        (rcv.hashed++buf).take prefixBytes := by
      rw [hhead]
      exact head_append (by omega) buf
    have hlen : ((rcv.hashed++buf).take prefixBytes).length = prefixBytes ↔
        prefixBytes ≤ (rcv.hashed++buf).length := by
      rw [List.length_take]
      omega
    rw [if_neg (by simp [hchecked])]
    simp only [hwindow,hlen]
    split
    · rename_i hfull'
      simp only [Receiver.checkPrefix,h.artifact]
      cases hcheck : check.checkPrefix H ((rcv.hashed++buf).take prefixBytes) with
      | ok passed =>
        exact .inl ⟨h.rejected,⟨rfl,h.budget,h.limit,h.rejected,hbytes,rfl,
          (decide_eq_true hfull').symm,fun _ => hcheck⟩⟩
      | error failure =>
        exact .inr ⟨h.limit,⟨failure,rfl⟩,hfull',by simp [hcheck]⟩
    · rename_i hfull'
      exact .inl ⟨h.rejected,⟨h.artifact,h.budget,h.limit,h.rejected,hbytes,rfl,
        hchecked.trans (decide_eq_false hfull').symm,fun hle => absurd hle hfull'⟩⟩

/-- A sink in its world: the temporary file holds what was hashed. -/
structure Filling (t : ThreadId) (w₀ : World) (tmp : ℕ) (rcv : Receiver) (w : World) : Prop where
  untouched : Untouched w₀ w
  same : rcv.tmp = tmp
  file : w.tmp.lookup tmp = some ⟨t,rcv.hashed⟩

/-- What comes of offering chunks: all of them are in, or the first bytes were refused. -/
inductive Offered {α ε : Type} (H : Sha256) (t : ThreadId) (w₀ : World) (check : ContentCheck)
    (tmp : ℕ) (offered : Bytes) (a : α) : Except ε α × Receiver → World → Prop
  | all {rcv : Receiver} {w : World} (seen : Seen H check rcv) (filling : Filling t w₀ tmp rcv w)
      (hashed : rcv.hashed = offered) : Offered H t w₀ check tmp offered a (.ok a,rcv) w
  | refused {e : ε} {rcv : Receiver} {w : World} {content : Bytes} (refused : Refused H check offered rcv) (untouched : Untouched w₀ w)
      (file : w.tmp.lookup tmp = some ⟨t,content⟩) :
      Offered H t w₀ check tmp offered a (.error e,rcv) w

theorem write_total (buf : Bytes) (h : Seen H check rcv) (hw : Filling t w₀ tmp rcv w) :
    (rcv.write H buf).Total (Call.Succeeds t)
      (Offered H t w₀ check tmp (rcv.hashed++buf) ()) w := by
  have hcharge : rcv.charge buf = some rcv := by simp [charge,h.budget]
  unfold write
  simp only [hcharge,h.rejected]
  obtain ⟨htmp,hhashed,hbytes,-⟩ := showHead_same H rcv buf
  rcases h.showHead buf with ⟨hnone,hseen⟩ | hrefused
  · simp only [hnone]
    refine total_fs () (w.append t tmp ⟨t,rcv.hashed⟩ buf) (fun x => ?_) ?_
    · have hfile : w.tmp.lookup (rcv.showHead H buf).tmp = some ⟨t,rcv.hashed⟩ := by
        rw [htmp,hw.same,hw.file]
      simp only [World.runFs,hfile]
      rw [htmp,hw.same]
    · refine .all (by simpa only [hhashed,hbytes,hnone] using hseen) ⟨?_,htmp.trans hw.same,?_⟩ ?_
      · exact ⟨hw.untouched.blobs,hw.untouched.index,hw.untouched.dirs,hw.untouched.locks⟩
      · simp [World.append,hhashed]
      · simp [hhashed]
  · obtain ⟨failure,hfailure⟩ := hrefused.rejected
    simp only [hfailure]
    exact .refused hrefused hw.untouched hw.file

theorem Refused.append {offered : Bytes} (h : Refused H check offered rcv) (more : Bytes) :
    Refused H check (offered++more) rcv :=
  ⟨h.limit,h.rejected,h.full.trans (by simp),by
    rw [List.take_append_of_le_length h.full]
    exact h.failed⟩

end Receiver

section deliver
variable {H : Sha256} {t : ThreadId} {w₀ w : World} {artifact : Artifact} {tmp : ℕ}

open Receiver in
theorem offer_total (chunks : List Bytes) :
    ∀ {rcv : Receiver} {w : World}, Seen H artifact.check rcv → Filling t w₀ tmp rcv w →
      (offer H chunks rcv).Total (Call.Succeeds t)
        (Offered H t w₀ artifact.check tmp (rcv.hashed++chunks.flatten) (some ())) w := by
  induction chunks with
  | nil => exact fun h hw => .all h hw (by simp)
  | cons chunk chunks ih =>
    intro rcv w h hw
    refine Program.Total.bind ((write_total chunk h hw).mono fun out u hu => ?_)
    cases hu with
    | all hseen hfilling hhashed =>
      refine (ih hseen hfilling).mono fun out v hv => ?_
      rw [hhashed] at hv
      simpa using hv
    | refused hrefused huntouched hfile =>
      refine .refused (by simpa using hrefused.append chunks.flatten) huntouched hfile

/-- What comes of receiving a body: it is in its temporary file, or its first bytes failed
the early check. -/
inductive ReceivedAs (H : Sha256) (t : ThreadId) (w₀ : World) (check : ContentCheck) (body : Bytes) :
    Except DatastoreError (Option (Received Unit)) × Option ℕ → World → Prop
  | whole {received left w} (untouched : Untouched w₀ w)
      (file : w.tmp.lookup received.tmp = some ⟨t,body⟩) (digest : received.digest = H.hex body)
      (bytes : received.bytes = body.length) :
      ReceivedAs H t w₀ check body (.ok (some received),left) w
  | refused {e left w} (untouched : Untouched w₀ w)
      (failed : check.checkPrefix H (body.take prefixBytes) ≠ .ok ()) :
      ReceivedAs H t w₀ check body (.error e,left) w

theorem exists_free_tmp (w : World) : ∃ tmp, w.tmp.lookup tmp = none := by
  obtain ⟨tmp,htmp⟩ := Infinite.exists_notMem_finset w.tmp.keys.toFinset
  exact ⟨tmp,AList.lookup_eq_none.mpr fun h => htmp (List.mem_toFinset.mpr (AList.mem_keys.mp h))⟩

open Receiver in
/-- The first bytes pass at the end if they have passed before or pass now. -/
theorem Receiver.Seen.finishPrefix_eq {rcv : Receiver} {check : ContentCheck} (h : Seen H check rcv) :
    rcv.finishPrefix H = check.checkPrefix H (rcv.hashed.take prefixBytes) := by
  unfold finishPrefix
  rw [h.artifact,h.checked,h.head]
  by_cases hfull : prefixBytes ≤ rcv.hashed.length
  · simp only [hfull,decide_true,if_true]
    exact (h.passed hfull).symm
  · simp [hfull]

open Receiver in
/-- The end of `receive` once everything is in: a short body is checked now. -/
theorem Receiver.Seen.verdict_total {rcv : Receiver} {body : Bytes} (h : Seen H artifact.check rcv)
    (hw : Filling t w₀ tmp rcv w) (hbody : rcv.hashed = body) :
    (rcv.conclude H tmp (rcv.verdict H artifact (.ok (some ())))).Total
      (Call.Succeeds t) (ReceivedAs H t w₀ artifact.check body) w := by
  subst hbody
  have hverdict : rcv.verdict H artifact (.ok (some ())) =
      ((rcv.finishPrefix H).map some).mapError (.contentRejected artifact.key) := by
    unfold verdict
    cases rcv.finishPrefix H <;> simp [h.limit,h.rejected,Except.map,Except.mapError]
  rw [hverdict,h.finishPrefix_eq]
  cases hcheck : artifact.check.checkPrefix H (rcv.hashed.take prefixBytes) with
  | error failure =>
    exact total_fs () { w with tmp := w.tmp.erase tmp } (fun _ => rfl) (.refused
      ⟨hw.untouched.blobs,hw.untouched.index,hw.untouched.dirs,hw.untouched.locks⟩ (by simp [hcheck]))
  | ok passed => exact .whole hw.untouched hw.file rfl h.bytes

open Receiver in
/-- The end of `receive` after a producer that has offered a body to the sink. -/
theorem Receiver.Offered.conclude_total {body : Bytes} {r : Except DatastoreError (Option Unit)}
    {rcv : Receiver} (h : Offered H t w₀ artifact.check tmp body (some ()) (r,rcv) w) :
    (rcv.conclude H tmp (rcv.verdict H artifact r)).Total (Call.Succeeds t)
      (ReceivedAs H t w₀ artifact.check body) w := by
  cases h with
  | all hseen hfilling hhashed => exact hseen.verdict_total hfilling hhashed
  | refused hrefused huntouched hfile =>
    rename_i e content
    obtain ⟨failure,hfailure⟩ := hrefused.rejected
    have hverdict : ∃ e', rcv.verdict (α := Unit) H artifact (.error e) = .error e' := by
      unfold Receiver.verdict
      rw [if_neg (by simp [hrefused.limit]),hfailure]
      cases e <;> exact ⟨_,rfl⟩
    obtain ⟨e',he⟩ := hverdict
    rw [he]
    exact total_fs () { w with tmp := w.tmp.erase tmp } (fun _ => rfl)
      (.refused ⟨huntouched.blobs,huntouched.index,huntouched.dirs,huntouched.locks⟩ hrefused.failed)

/-- A new temporary file, with a sink that has seen nothing. -/
theorem createTmp_total (check : ContentCheck) : (fs .createTmp).Total (Call.Succeeds t)
    (fun out u => ∃ tmp, out = .ok tmp ∧ Receiver.Filling t w tmp (.new tmp check none) u) w := by
  refine total_fs_bind ?_ fun tmp out u hu => ?_
  · obtain ⟨tmp,htmp⟩ := exists_free_tmp w
    refine ⟨tmp,tmp,{ w with tmp := w.tmp.insert tmp ⟨t,[]⟩ },?_⟩
    simp only [World.runFs,htmp,if_true]
  · simp only [World.runFs] at hu
    split at hu
    · cases hu
      exact ⟨tmp,rfl,⟨rfl,rfl,rfl,rfl⟩,rfl,AList.lookup_insert _⟩
    · cases hu

open Receiver in
theorem Receiver.seen_new {check : ContentCheck} : Seen H check (.new tmp check none) :=
  ⟨rfl,rfl,rfl,rfl,rfl,rfl,rfl,fun h => by simp [Receiver.new,prefixBytes] at h⟩

open Receiver in
theorem receive_total (chunks : List Bytes) :
    (receive H artifact none (offer H chunks)).Total (Call.Succeeds t)
      (ReceivedAs H t w artifact.check chunks.flatten) w := by
  refine Program.Total.bind ((createTmp_total artifact.check).mono ?_)
  rintro out u ⟨tmp,rfl,hu⟩
  refine Program.Total.bind ((offer_total chunks seen_new hu).mono ?_)
  rintro ⟨r,rcv⟩ v hv
  exact hv.conclude_total

theorem validatePins_iff {bytes : ℕ} {digest : String} :
    validatePins artifact bytes digest = .ok () ↔
      (∀ n, artifact.expectedBytes = some n → n = bytes) ∧
        ∀ pin ∈ artifact.check.pinnedSha256s, pin = digest := by
  unfold validatePins
  cases hn : artifact.expectedBytes with
  | none =>
    cases hf : artifact.check.pinnedSha256s.find? (· ≠ digest) with
    | none => simpa [hn] using List.find?_eq_none.mp hf
    | some pin =>
      have := List.find?_some hf
      have hmem := List.mem_of_find?_eq_some hf
      simp only [ne_eq,decide_not,Bool.not_eq_true',decide_eq_false_iff_not] at this
      simp only [Option.any_none,Bool.false_eq_true,if_false]
      exact ⟨fun h => (nomatch h),fun h => absurd (h.2 pin hmem) this⟩
  | some n =>
    by_cases hne : n = bytes
    · subst hne
      cases hf : artifact.check.pinnedSha256s.find? (· ≠ digest) with
      | none => simpa [hn] using List.find?_eq_none.mp hf
      | some pin =>
        have := List.find?_some hf
        have hmem := List.mem_of_find?_eq_some hf
        simp only [ne_eq,decide_not,Bool.not_eq_true',decide_eq_false_iff_not] at this
        simp only [Option.any_some,ne_eq,not_true_eq_false,decide_false,Bool.false_eq_true,if_false]
        exact ⟨fun h => (nomatch h),fun h => absurd (h.2 pin hmem) this⟩
    · simp only [Option.any_some,ne_eq,hne,not_false_eq_true,decide_true,if_true]
      exact ⟨fun h => (nomatch h),fun h => absurd (h.1 n rfl) hne⟩

/-- What an artifact asks of a body, in plain terms. -/
def Artifact.Wants (H : Sha256) (artifact : Artifact) (body : Bytes) : Prop :=
  (∀ n, artifact.expectedBytes = some n → n = body.length) ∧ artifact.check.Accepts H body

/-- The pins, compared with the recorded digest, and the rest of the check together say
what the artifact asks for. -/
theorem wants_iff {body : Bytes} :
    artifact.Wants H body ↔ validatePins artifact body.length (H.hex body) = .ok () ∧
      artifact.check.withoutSha256.checkFile H body = .ok () := by
  rw [validatePins_iff,ContentCheck.checkFile_iff,Artifact.Wants,ContentCheck.accepts_iff_pins]
  exact and_assoc.symm

theorem validate_total {body : Bytes} (hfile : w.tmp.lookup tmp = some ⟨t,body⟩) :
    (validate H artifact (.readTmp tmp) id body.length (H.hex body)).run.Total (Call.Succeeds t)
      (fun out w' => w' = w ∧ (out = .ok () ↔ artifact.Wants H body)) w := by
  unfold validate
  cases hpins : validatePins artifact body.length (H.hex body) with
  | error e => exact ⟨rfl,by simp [wants_iff,hpins]⟩
  | ok passed =>
    refine total_fs body w (fun _ => by simp only [World.runFs,hfile]) ⟨rfl,?_⟩
    cases hcheck : artifact.check.withoutSha256.checkFile H body with
    | ok passed => simp [wants_iff,hpins,hcheck,rejectFailure]
    | error failure => simp [wants_iff,hcheck,rejectFailure]

/-- The blob at the address of a body once publication succeeded: the body, or what was
there before. -/
structure Blob (H : Sha256) (body : Bytes) (w w' : World) (blob : Bytes) : Prop where
  file : w'.blobs.lookup (H.hex body) = some blob
  hex : H.hex blob = H.hex body
  origin : blob = body ∨ w.blobs.lookup (H.hex body) = some blob

theorem layout_publish_total {body : Bytes} (hfile : w.tmp.lookup tmp = some ⟨t,body⟩)
    (hintact : ∀ old, w.blobs.lookup (H.hex body) = some old → H.hex old = H.hex body) :
    (Layout.publish H tmp (H.hex body)).run.Total (Call.Succeeds t)
      (fun out w' => out = .ok (some (blobPath (H.hex body))) ∧ (∃ blob, Blob H body w w' blob) ∧
        w'.index = w.index ∧ w'.dirs = w.dirs) w := by
  refine Program.Total.bind (Program.Total.bind (total_fs
    (w.blobs.lookup (H.hex body)).isSome w (fun _ => rfl) ?_))
  cases hold : w.blobs.lookup (H.hex body) with
  | some old =>
    refine Program.Total.bind (total_io old w (fun _ => by simp only [World.runFs,hold]) ?_)
    refine total_fs () { w with tmp := w.tmp.erase tmp } (fun _ => rfl) ⟨?_,⟨old,?_⟩,rfl,rfl⟩
    · simp [Except.map,hintact old hold]
    · exact ⟨hold,hintact old hold,.inr hold⟩
  | none =>
    refine Program.Total.bind (total_io () w (fun _ => rfl) (total_io () w (fun _ => rfl)
      (total_io_last () { w with blobs := w.blobs.insert (H.hex body) body, tmp := w.tmp.erase tmp }
        (fun _ => by simp only [World.runFs,hfile]) ?_)))
    refine total_io () _ (fun _ => rfl) ⟨rfl,⟨body,?_⟩,rfl,rfl⟩
    exact ⟨AList.lookup_insert _,rfl,.inl rfl⟩

theorem not_isAncestor_self (path : String) : World.isAncestor path path = false := by
  rw [World.isAncestor,← Bool.not_eq_true,List.isPrefixOf_iff_prefix]
  intro h
  have := h.length_le
  simp only [List.length_append,List.length_singleton] at this
  omega

/-- Where nothing is in the way, the parent is not a file either. -/
theorem not_parent_of_not_blocked {path : String} (h : w.blocked path = false) :
    (w.index.keys.any fun file => World.isParent file path) = false := by
  apply List.any_eq_false.mpr
  intro file hfile hparent
  simp only [World.isParent,Bool.and_eq_true] at hparent
  exact List.any_eq_false.mp h file hfile hparent.1

theorem writeEntry_total {key : ArtifactKey} {entry : IndexEntry}
    (hdirs : w.dirs (indexPath key) = false) (hblocked : w.blocked (indexPath key) = false) :
    (Layout.writeEntry key entry).run.Total (Call.Succeeds t)
      (fun out w' => out = .ok () ∧ w'.blobs = w.blobs ∧
        w'.index.lookup (indexPath key) = some (.parsed entry)) w := by
  let made : World := { w with dirs := fun dir => w.dirs dir || World.isAncestor dir (indexPath key) }
  have hmade : made.dirs (indexPath key) = false := by
    simp only [made,hdirs,not_isAncestor_self,Bool.or_self]
  refine total_io () made (fun _ => by
      simp only [World.runFs,hblocked,not_parent_of_not_blocked hblocked]; rfl)
    (total_io () made (fun _ => rfl)
      (total_io () { made with index := made.index.insert (indexPath key) (.parsed entry) }
        (fun _ => by simp only [World.runFs,hmade]; rfl)
        (total_io_last () _ (fun _ => rfl) ⟨rfl,rfl,AList.lookup_insert _⟩)))

/-- The end of a publication: accepted exactly when the artifact wants the body, and then
the blob, its path and the sidecar are those of the body. -/
structure Delivered (H : Sha256) (artifact : Artifact) (body : Bytes) (w : World)
    (out : Except DatastoreError (List String)) (w' : World) : Prop where
  accepts : (∃ path, out = .ok path) ↔ artifact.Wants H body
  stored : ∀ path, out = .ok path → path = blobPath (H.hex body) ∧ ∃ blob, Blob H body w w' blob
  recorded : ∀ path, out = .ok path → ∃ entry,
    w'.index.lookup (indexPath artifact.key) = some (.parsed entry) ∧
      entry.digest = H.hex body ∧ entry.bytes = body.length

theorem publish_total {body : Bytes} {entry : IndexEntry} (hw : Untouched w₀ w)
    (hfile : w.tmp.lookup tmp = some ⟨t,body⟩) (hfree : w₀.locks Layout.storeLockName = none)
    (hdirs : w₀.dirs (indexPath artifact.key) = false)
    (hblocked : w₀.blocked (indexPath artifact.key) = false)
    (hintact : ∀ old, w₀.blobs.lookup (H.hex body) = some old → H.hex old = H.hex body)
    (hdigest : entry.digest = H.hex body) (hbytes : entry.bytes = body.length) :
    (publish H artifact tmp entry).run.Total (Call.Succeeds t)
      (fun out w' => Delivered H artifact body w₀ out w') w := by
  unfold publish
  rw [hbytes,hdigest]
  refine Program.Total.bind ((validate_total hfile).mono ?_)
  rintro out u ⟨rfl,hwants⟩
  cases out with
  | error e =>
    refine total_fs () { u with tmp := u.tmp.erase tmp } (fun _ => rfl) ⟨?_,by simp,by simp⟩
    simp [← hwants]
  | ok passed =>
    have hlocks : u.locks Layout.storeLockName = none := hw.locks ▸ hfree
    refine total_fs () (u.setLock Layout.storeLockName (some t))
      (fun _ => by simp only [World.runFs,hlocks,if_true]) (Program.Total.bind ?_)
    unfold publishLocked
    rw [hdigest]
    have hintact' : ∀ old, u.blobs.lookup (H.hex body) = some old → H.hex old = H.hex body :=
      hw.blobs ▸ hintact
    refine Program.Total.bind_run ((layout_publish_total
      (w := u.setLock Layout.storeLockName (some t)) hfile hintact').mono ?_)
    rintro out v ⟨rfl,⟨blob,hblob⟩,hindex,hdirs'⟩
    have hdirs : v.dirs (indexPath artifact.key) = false := by
      rw [hdirs']
      exact hw.dirs ▸ hdirs
    have hblocked : v.blocked (indexPath artifact.key) = false := by
      unfold World.blocked at hblocked ⊢
      rw [hindex]
      exact hw.index ▸ hblocked
    refine Program.Total.bind_run ((writeEntry_total hdirs hblocked).mono ?_)
    rintro out x ⟨rfl,hblobs,hentry⟩
    have horigin : blob = body ∨ w₀.blobs.lookup (H.hex body) = some blob := hw.blobs ▸ hblob.origin
    refine total_fs () (if x.locks Layout.storeLockName = some t then
      x.setLock Layout.storeLockName none else x) (fun _ => rfl) ?_
    have hfile' : (if x.locks Layout.storeLockName = some t then
        x.setLock Layout.storeLockName none else x).blobs = x.blobs := by
      split <;> rfl
    have hindex' : (if x.locks Layout.storeLockName = some t then
        x.setLock Layout.storeLockName none else x).index = x.index := by
      split <;> rfl
    refine ⟨⟨fun _ => hwants.mp rfl,fun _ => ⟨_,rfl⟩⟩,fun path hp => ?_,fun path hp => ?_⟩
    · cases hp
      exact ⟨rfl,blob,by rw [hfile',hblobs]; exact hblob.file,hblob.hex,horigin⟩
    · exact ⟨entry,by rw [hindex']; exact hentry,hdigest,hbytes⟩

theorem deliver_total (chunks : List Bytes) (entry : IndexEntry)
    (hfree : w.locks Layout.storeLockName = none)
    (hdirs : w.dirs (indexPath artifact.key) = false)
    (hblocked : w.blocked (indexPath artifact.key) = false)
    (hintact : ∀ old, w.blobs.lookup (H.hex chunks.flatten) = some old →
      H.hex old = H.hex chunks.flatten) :
    (deliver H artifact chunks entry).run.Total (Call.Succeeds t)
      (fun out w' => Delivered H artifact chunks.flatten w out w') w := by
  refine Program.Total.bind_run (Program.Total.bind ((receive_total chunks).mono ?_))
  rintro out u hu
  cases hu with
  | whole huntouched hfile hdigest hbytes =>
    refine Program.Total.bind_run ?_
    exact publish_total huntouched hfile hfree hdirs hblocked hintact hdigest hbytes
  | refused huntouched hfailed =>
    refine Program.Total.bind_run ⟨?_,by simp,by simp⟩
    have : ¬ artifact.Wants H chunks.flatten := fun h =>
      hfailed (ContentCheck.checkPrefix_of_accepts artifact.check h.2)
    simp [this]

/-- A body that is received in any chunks and published is accepted exactly when its size
and its content are what the artifact asks for, and then it is what the cache serves. -/
theorem deliver_accepts (H : Sha256) (t : ThreadId) (artifact : Artifact) (chunks : List Bytes)
    (entry : IndexEntry) (w : World) (hfree : w.locks Layout.storeLockName = none)
    (hdirs : w.dirs (indexPath artifact.key) = false)
    (hblocked : w.blocked (indexPath artifact.key) = false)
    (hintact : ∀ old, w.blobs.lookup (H.hex chunks.flatten) = some old →
      H.hex old = H.hex chunks.flatten) :
    (∃ events out w', (deliver H artifact chunks entry).run.Runs (Call.Succeeds t) w events out w') ∧
    ∀ events out w', (deliver H artifact chunks entry).run.Runs (Call.Succeeds t) w events out w' →
      ((∃ path, out = .ok path) ↔
        (∀ n, artifact.expectedBytes = some n → n = chunks.flatten.length) ∧
          artifact.check.Accepts H chunks.flatten) ∧
      ∀ path, out = .ok path →
        (∃ blob, w'.fileAt path = some blob ∧ H.hex blob = H.hex chunks.flatten ∧
          (Set.InjOn H.hex {blob,chunks.flatten} → blob = chunks.flatten) ∧
          (w.blobs.lookup (H.hex chunks.flatten) = none → blob = chunks.flatten)) ∧
        ∃ entry', w'.index.lookup (indexPath artifact.key) = some (.parsed entry') ∧
          entry'.digest = H.hex chunks.flatten ∧ entry'.bytes = chunks.flatten.length := by
  have htotal := deliver_total (t := t) chunks entry hfree hdirs hblocked hintact
  refine ⟨htotal.exists_runs,fun events out w' hr => ?_⟩
  have hdone := htotal.of_runs hr
  refine ⟨hdone.accepts,fun path hp => ⟨?_,hdone.recorded path hp⟩⟩
  obtain ⟨rfl,blob,hblob⟩ := hdone.stored path hp
  refine ⟨blob,?_,hblob.hex,fun hinj => hinj (by simp) (by simp) hblob.hex,fun hnone => ?_⟩
  · simpa [World.fileAt,blobPath] using hblob.file
  · rcases hblob.origin with he | hold
    · exact he
    · rw [hnone] at hold
      cases hold

/-- The content `abc` in two chunks. -/
theorem deliver_accepts_abc :
    ∃ events path w', (deliver .sample .sample [[0x61],[0x62,0x63]] (.new "" 0 0 .upstream)).run.Runs
      (Call.Succeeds 0) .fresh events (.ok path) w' := by
  obtain ⟨⟨events,out,w',hr⟩,h⟩ := deliver_accepts .sample 0 .sample [[0x61],[0x62,0x63]]
    (.new "" 0 0 .upstream) .fresh rfl rfl rfl (fun old h => by cases h)
  obtain ⟨path,rfl⟩ := (h events out w' hr).1.mpr
    ⟨by simp [Artifact.sample],by simp [Artifact.sample,ContentCheck.Accepts,ContentCheck.AcceptsAll]⟩
  exact ⟨events,path,w',hr⟩

end deliver
end StarfieldDatastore
