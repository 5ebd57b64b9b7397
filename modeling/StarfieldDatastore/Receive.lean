import StarfieldDatastore.Store
import StarfieldDatastore.Sheltered

/-! What a transfer leaves behind: a temporary file that holds exactly the bytes that
were hashed, counted and charged, or none. -/
namespace StarfieldDatastore
open Interleaving

namespace Receiver
variable {tidy : Prop} {t : ThreadId} {E : Setting Call Call.Ret World} {H : Sha256}
  {rcv : Receiver} {w w' : World} {α ε : Type}

/-- The file of the sink holds exactly what was hashed and counted. -/
structure Synced (tidy : Prop) (t : ThreadId) (rcv : Receiver) (w : World) : Prop where
  holding : Holding tidy t rcv.tmp rcv.hashed w
  count : rcv.bytes = rcv.hashed.length

/-- What is left of the budget makes room for the bytes that were let in. -/
def Charged (before after : Receiver) : Prop :=
  match before.budget, after.budget with
  | none, none => True
  | some b, some b' => after.bytes+b' ≤ before.bytes+b
  | _, _ => False

theorem Charged.refl (rcv : Receiver) : Charged rcv rcv := by
  unfold Charged
  cases rcv.budget <;> simp

theorem Charged.trans {r r' r'' : Receiver} (h : Charged r r') (h' : Charged r' r'') :
    Charged r r'' := by
  unfold Charged at *
  cases hb : r.budget <;> cases hb' : r'.budget <;> cases hb'' : r''.budget <;> simp_all
  omega

/-- The sink after use: its file is still there, in step with the hasher unless the use
failed. -/
structure Streamed (tidy : Prop) (t : ThreadId) (before : Receiver) (out : Except ε α × Receiver)
    (w : World) : Prop where
  tmp : out.2.tmp = before.tmp
  holding : ∃ content, Holding tidy t before.tmp content w
  charged : Charged before out.2
  synced : ∀ a, out.1 = .ok a → out.2.Synced tidy t w

theorem Synced.stable (h : rcv.Synced tidy t w) (hw : SameTmp t w w') : rcv.Synced tidy t w' :=
  ⟨h.holding.stable hw,h.count⟩

theorem Streamed.stable {out : Except ε α × Receiver} (h : Streamed tidy t rcv out w)
    (hw : SameTmp t w w') : Streamed tidy t rcv out w' :=
  ⟨h.tmp,h.holding.imp fun _ hc => hc.stable hw,h.charged,fun a ha => (h.synced a ha).stable hw⟩

/-- An unused sink, with a result of one's own. -/
theorem Synced.streamed (h : rcv.Synced tidy t w) (r : Except ε α) :
    Streamed tidy t rcv (r,rcv) w :=
  ⟨rfl,⟨_,h.holding⟩,.refl rcv,fun _ _ => h⟩

theorem Synced.holds_done (hE : Sheltered tidy t E) (h : rcv.Synced tidy t w) (r : Except ε α) :
    (Program.done (r,rcv) : Prog (Except ε α × Receiver)).Holds E (Streamed tidy t rcv) w :=
  fun _ hu => (h.stable (hE.rely hu)).streamed r

/-- One use of the sink after another. -/
theorem Streamed.after {out : Except ε α × Receiver} {before : Receiver} {β δ : Type}
    {out' : Except δ β × Receiver} (h : Streamed tidy t before out w')
    (h' : Streamed tidy t out.2 out' w) : Streamed tidy t before out' w :=
  ⟨h'.tmp.trans h.tmp,h.tmp ▸ h'.holding,h.charged.trans h'.charged,h'.synced⟩

theorem charge_same {buf : Bytes} {rcv' : Receiver} (h : rcv.charge buf = some rcv') :
    rcv'.tmp = rcv.tmp ∧ rcv'.hashed = rcv.hashed ∧ rcv'.bytes = rcv.bytes := by
  unfold charge at h
  split at h
  · cases h
    simp
  · split at h
    · cases h
    · cases h
      simp

/-- A chunk that was charged is covered by the budget. -/
theorem charge_charged {buf : Bytes} {rcv' : Receiver} (h : rcv.charge buf = some rcv') :
    Charged rcv { rcv' with bytes := rcv.bytes+buf.length } := by
  unfold charge at h
  split at h
  · rename_i hb
    cases h
    simp [Charged,hb]
  · rename_i b hb
    split at h
    · cases h
    · rename_i hn
      cases h
      simp only [Bool.or_eq_true,decide_eq_true_eq,not_or,not_lt] at hn
      simp only [Charged,hb]
      omega

theorem Charged.of_le {r r' r'' : Receiver} (h : Charged r r') (hb : r''.budget = r'.budget)
    (hl : r''.bytes ≤ r'.bytes) : Charged r r'' := by
  unfold Charged at *
  rw [hb]
  cases hr : r.budget <;> cases hr' : r'.budget <;> simp_all
  omega

theorem write_holds (hE : Sheltered tidy t E) (buf : Bytes) (h : rcv.Synced tidy t w) :
    (rcv.write H buf).Holds E (Streamed tidy t rcv) w := by
  unfold write
  cases hc : rcv.charge buf with
  | none =>
    exact fun u hu => ⟨rfl,⟨_,h.holding.stable (hE.rely hu)⟩,.refl rcv,fun _ ha => by cases ha⟩
  | some rcv₁ =>
    obtain ⟨htmp,hhashed,hbytes⟩ := charge_same hc
    have hcharged := charge_charged hc
    obtain ⟨stmp,shashed,sbytes,sbudget⟩ := showHead_same H rcv₁ buf
    -- a rejected chunk has been charged, and nothing else
    have failed : ∀ (rcv' : Receiver) (e : IoError), rcv'.tmp = rcv₁.tmp →
        rcv'.budget = rcv₁.budget → rcv'.bytes = rcv₁.bytes → ∀ u,
        (∃ content, Holding tidy t rcv.tmp content u) →
        Streamed tidy t rcv ((.error e : Except IoError Unit),rcv') u :=
      fun rcv' e h₁ h₂ h₃ u hu =>
        ⟨h₁.trans htmp,hu,hcharged.of_le h₂ (by simp only [h₃,hbytes]; omega),fun _ ha => by cases ha⟩
    simp only
    split
    · exact fun u hu => failed _ _ rfl rfl rfl u ⟨_,h.holding.stable (hE.rely hu)⟩
    · split
      · exact fun u hu => failed _ _ stmp sbudget sbytes u ⟨_,h.holding.stable (hE.rely hu)⟩
      · intro u hu r u' hstep
        have hu := h.holding.stable (hE.rely hu)
        rw [stmp,htmp] at hstep
        obtain ⟨hg,hr⟩ := hE.appendTmp hu hstep
        refine ⟨hg,?_⟩
        cases r with
        | error e =>
          intro u'' hu''
          exact failed _ _ stmp sbudget sbytes u'' (hr.imp fun _ hc => hc.stable (hE.rely hu''))
        | ok out =>
          intro u'' hu''
          have hr := hr.stable (hE.rely hu'')
          refine ⟨stmp.trans htmp,⟨_,hr⟩,hcharged.of_le sbudget ?_,fun _ _ => ⟨?_,?_⟩⟩
          · simp [sbytes,hbytes]
          · simpa [stmp,htmp,shashed,hhashed] using hr
          · simp [shashed,hhashed,sbytes,hbytes,h.count]

theorem writeAll_holds (hE : Sheltered tidy t E) (buf : Bytes) (h : rcv.Synced tidy t w) :
    (rcv.writeAll H buf).Holds E (Streamed tidy t rcv) w := by
  unfold writeAll
  split
  · exact h.holds_done hE _
  · exact write_holds hE buf h

end Receiver

/-- A producer that uses the sink only through its writes. -/
def Streams {α : Type} (tidy : Prop) (t : ThreadId) (E : Setting Call Call.Ret World)
    (producer : Producer α) : Prop :=
  ∀ rcv w, Receiver.Synced tidy t rcv w → (producer rcv).Holds E (Receiver.Streamed tidy t rcv) w

section producers
variable {tidy : Prop} {t : ThreadId} {E : Setting Call Call.Ret World} {H : Sha256} {U : UrlCrate}
  {α : Type}

theorem copy_streams (hE : Sheltered tidy t E)
    {read : Prog (Except DatastoreError (Option Bytes))}
    (hread : read.Only fun c => c.readOnly = true) (reads : ℕ) :
    Streams tidy t E (copy H read reads) := by
  induction reads with
  | zero => exact fun rcv w h => h.holds_done hE _
  | succ reads ih =>
    intro rcv w h
    refine Program.Holds.bind (Program.Holds.mono
      (hE.holds_readOnly hread (fun _ _ hr hs => hs.stable (hE.rely hr)) h) fun r u hu => ?_)
    match r with
    | .error e => exact hu.holds_done hE _
    | .ok none => exact hu.holds_done hE _
    | .ok (some chunk) =>
      refine Program.Holds.bind (Program.Holds.mono (Receiver.writeAll_holds hE chunk hu) ?_)
      rintro ⟨r,rcv'⟩ u' hu'
      cases r with
      | error e =>
        exact fun u'' hr => ⟨hu'.tmp,hu'.holding.imp fun _ hc => hc.stable (hE.rely hr),
          hu'.charged,fun _ ha => by cases ha⟩
      | ok a => exact (ih rcv' u' (hu'.synced a rfl)).mono fun _ _ h' => hu'.after h'

theorem readBody_readOnly : readBody.Only fun c => c.readOnly = true := ⟨rfl,fun _ => trivial⟩

theorem readImport_readOnly : readImport.Only fun c => c.readOnly = true :=
  ⟨rfl,fun _ => trivial⟩

theorem readS3_readOnly : readS3.Only fun c => c.readOnly = true := by
  refine ⟨rfl,fun r => ?_⟩
  cases r <;> trivial

variable {f : Fetcher} {source : Source}

theorem apply_only {P : Call → Prop} (hnow : P (.net .systemNow)) (credential : Option Credential) :
    (Fetcher.apply credential).Only P := by
  unfold Fetcher.apply
  split
  · exact ⟨hnow,fun _ => trivial⟩
  · trivial

/-- Following redirects takes nothing but requests, and the clock for expiry dates. -/
theorem hops_only {P : Call → Prop} (hsend : ∀ url credential, P (.net (.send url credential)))
    (hnow : P (.net .systemNow)) (originHost : String) (origin : Option Credential) (left : ℕ) :
    ∀ url identity, (f.hops U source originHost origin left url identity).run.Only P := by
  induction left with
  | zero => exact fun _ _ => trivial
  | succ left ih =>
    intro url identity
    refine .bind_run (.lift_except _) fun host => .bind_run (.lift_except _) fun credential =>
      .bind_run (.lift (apply_only hnow _)) fun looksExpired =>
      .bind_run (.lift (.perform (hsend _ _))) fun r => ?_
    cases r with
    | error e => trivial
    | ok response =>
      simp only
      split
      · split
        · trivial
        · split
          · trivial
          · exact .bind_run (.lift_except _) fun url => ih url _
      · repeat' split
        all_goals trivial

theorem navigate_only {P : Call → Prop} (hsend : ∀ url credential, P (.net (.send url credential)))
    (hnow : P (.net .systemNow)) : (f.navigate U source).run.Only P :=
  .bind_run (.lift_except _) fun _ => .bind_run (.lift_except _) fun _ =>
    .bind_run (.lift_except _) fun _ => hops_only hsend hnow _ _ _ _ _

theorem navigate_readOnly : (f.navigate U source).run.Only fun c => c.readOnly = true :=
  navigate_only (fun _ _ => rfl) rfl

theorem writeAll_only {P : Call → Prop} (happend : ∀ tmp buf, P (.fs (.appendTmp tmp buf)))
    (buf : Bytes) (rcv : Receiver) : (rcv.writeAll H buf).Only P := by
  unfold Receiver.writeAll Receiver.write
  split
  · trivial
  · split
    · trivial
    · split
      · trivial
      · split
        · trivial
        · refine .bind (.perform (happend _ _)) fun r => ?_
          cases r <;> trivial

theorem copy_only {P : Call → Prop} {read : Prog (Except DatastoreError (Option Bytes))}
    (hread : read.Only P) (happend : ∀ tmp buf, P (.fs (.appendTmp tmp buf))) (reads : ℕ) :
    ∀ rcv, (copy H read reads rcv).Only P := by
  induction reads with
  | zero => exact fun _ => trivial
  | succ reads ih =>
    refine fun rcv => .bind hread fun r => ?_
    match r with
    | .error e => trivial
    | .ok none => trivial
    | .ok (some chunk) =>
      refine .bind (writeAll_only happend _ _) fun out => ?_
      obtain ⟨r,rcv'⟩ := out
      cases r with
      | error e => trivial
      | ok done => exact ih rcv'

/-- Renaming the result of a copy that succeeded. -/
theorem copied_streams {producer : Producer Unit} (h : Streams tidy t E producer)
    (hE : Sheltered tidy t E) (a : α) :
    Streams tidy t E fun w => do
      match ← producer w with
      | (.error e,w) => return (.error e,w)
      | (.ok (),w) => return (.ok a,w) := by
  intro rcv w hw
  refine Program.Holds.bind ((h rcv w hw).mono fun out u hu => ?_)
  obtain ⟨r,rcv'⟩ := out
  cases r with
  | ok done =>
    intro v hv
    have hv := hu.stable (hE.rely hv)
    exact ⟨hv.tmp,hv.holding,hv.charged,fun _ _ => hv.synced done rfl⟩
  | error e =>
    intro v hv
    have hv := hu.stable (hE.rely hv)
    exact ⟨hv.tmp,hv.holding,hv.charged,fun _ ha => by cases ha⟩

theorem request_streams (hE : Sheltered tidy t E) : Streams tidy t E (f.request H U source) := by
  intro rcv w hw
  refine Program.Holds.bind (Program.Holds.mono
    (hE.holds_readOnly navigate_readOnly (fun _ _ hr hs => hs.stable (hE.rely hr)) hw) fun r u hu => ?_)
  match r with
  | .error e => exact hu.holds_done hE _
  | .ok none => exact hu.holds_done hE _
  | .ok (some (response,download)) =>
    exact copied_streams (copy_streams hE readBody_readOnly _) hE (some download) rcv u hu

theorem fetch_streams (hE : Sheltered tidy t E) (mirror : Mirror) (key : ArtifactKey) :
    Streams tidy t E (mirror.fetch H U key) := by
  intro rcv w hw
  cases mirror with
  | http base =>
    refine Program.Holds.bind ((request_streams hE rcv w hw).mono fun out u hu => ?_)
    obtain ⟨r,rcv'⟩ := out
    cases r with
    | ok found =>
      intro v hv
      have hv := hu.stable (hE.rely hv)
      exact ⟨hv.tmp,hv.holding,hv.charged,fun _ _ => hv.synced found rfl⟩
    | error e =>
      intro v hv
      have hv := hu.stable (hE.rely hv)
      exact ⟨hv.tmp,hv.holding,hv.charged,fun _ ha => by cases ha⟩
  | s3 bucket pre =>
    refine Program.Holds.bind (Program.Holds.mono
      (hE.holds_readOnly (.perform rfl) (fun _ _ hr hs => hs.stable (hE.rely hr)) hw) fun r u hu => ?_)
    match r with
    | .error code => exact hu.holds_done hE _
    | .ok none => exact hu.holds_done hE _
    | .ok (some reads) =>
      exact copied_streams (copy_streams hE readS3_readOnly _) hE (some ()) rcv u hu

/-- Only a result that says there is an object yields one. -/
theorem Receiver.verdict_some {artifact : Artifact} {rcv : Receiver}
    {result : Except DatastoreError (Option α)} {info : α}
    (h : rcv.verdict H artifact result = .ok (some info)) : result = .ok (some info) := by
  unfold Receiver.verdict at h
  split at h
  · cases h
  · split at h
    · cases h
    · cases h
    · cases h
    · cases h
    · split at h
      · cases h
        rfl
      · cases h

/-- What is left of a budget after some of it was spent. -/
def Within (budget left : Option ℕ) (bytes : ℕ) : Prop :=
  ∀ b, budget = some b → ∃ b', left = some b' ∧ bytes+b' ≤ b

theorem Within.refl (budget : Option ℕ) : Within budget budget 0 := fun b hb => ⟨b,hb,by omega⟩

theorem Receiver.Charged.within {check : ContentCheck} {tmp : ℕ} {budget : Option ℕ}
    {rcv : Receiver} (h : Charged (.new tmp check budget) rcv) :
    Within budget rcv.budget rcv.bytes := by
  rintro b rfl
  unfold Receiver.Charged at h
  cases hb : rcv.budget <;> simp_all [Receiver.new]

/-- A received object: the whole of its temporary file, with its digest and length. -/
structure Received.Delivered (H : Sha256) (tidy : Prop) (t : ThreadId) (received : Received α)
    (body : Bytes) (w : World) : Prop where
  holding : Holding tidy t received.tmp body w
  digest : received.digest = H.hex body
  bytes : received.bytes = body.length

theorem Received.Delivered.stable {received : Received α} {body : Bytes} {w w' : World}
    (h : received.Delivered H tidy t body w) (hw : SameTmp t w w') :
    received.Delivered H tidy t body w' :=
  ⟨h.holding.stable hw,h.digest,h.bytes⟩

/-- The possible ends of `receive`. -/
inductive ReceiveEnd (H : Sha256) (tidy : Prop) (t : ThreadId) (budget : Option ℕ) (w : World) :
    Except DatastoreError (Option (Received α)) × Option ℕ → Prop
  | nothing {r left} (empty : Empty tidy t w) (within : Within budget left 0)
      (none : ∀ received, r ≠ .ok (some received)) : ReceiveEnd H tidy t budget w (r,left)
  | delivered {received : Received α} {body left} (ok : received.Delivered H tidy t body w)
      (within : Within budget left body.length) :
      ReceiveEnd H tidy t budget w (.ok (some received),left)

theorem receive_holds (hE : Sheltered tidy t E) (artifact : Artifact) (budget : Option ℕ)
    {producer : Producer (Option α)} (hp : Streams tidy t E producer) {w : World}
    (hw : Empty tidy t w) : (receive H artifact budget producer).Holds E
      (fun out w' => ReceiveEnd H tidy t budget w' out) w := by
  refine Program.Holds.perform_bind fun u hu r v hv => ?_
  obtain ⟨hg,hr⟩ := hE.createTmp (hw.stable (hE.rely hu)) hv
  refine ⟨hg,?_⟩
  cases r with
  | error e => exact fun v' hv' => .nothing (hr.stable (hE.rely hv')) (.refl _) (by simp)
  | ok tmp =>
    refine Program.Holds.bind ((hp (.new tmp artifact.check budget) v ⟨hr,rfl⟩).mono ?_)
    rintro ⟨result,rcv⟩ x hx
    have hleft := hx.charged.within
    have hspent : Within budget rcv.budget 0 := fun b hb =>
      (hleft b hb).imp fun _ h => ⟨h.1,by omega⟩
    obtain ⟨content,hcontent⟩ := hx.holding
    simp only
    cases hverdict : rcv.verdict H artifact result with
    | error e =>
      intro y hy r z hz
      obtain ⟨hg,hz⟩ := hE.dropTmp (hcontent.stable (hE.rely hy)) hz
      exact ⟨hg,fun z' hz' => .nothing (hz.stable (hE.rely hz')) hspent (by simp)⟩
    | ok info =>
      cases info with
      | none =>
        intro y hy r z hz
        obtain ⟨hg,hz⟩ := hE.dropTmp (hcontent.stable (hE.rely hy)) hz
        exact ⟨hg,fun z' hz' => .nothing (hz.stable (hE.rely hz')) hspent (by simp)⟩
      | some info =>
        have hsynced := hx.synced _ (Receiver.verdict_some hverdict)
        intro y hy
        refine .delivered ⟨?_,rfl,hsynced.count⟩ (hsynced.count ▸ hleft)
        have hholding := hsynced.holding.stable (hE.rely hy)
        rwa [show rcv.tmp = tmp from hx.tmp] at hholding

end producers
end StarfieldDatastore
