import StarfieldDatastore.Get
import Mathlib.Data.List.DropRight

/-! The byte budget of one call, read off the events of its runs: what was offered to the
sink, what was appended, and what happened after an offer that did not fit. -/
namespace StarfieldDatastore
open Interleaving

abbrev Event := Program.Event Call Call.Ret

namespace Event

/-- The bytes of a chunk that arrived from the mirror or a source. -/
def offered : Event → ℕ
  | ⟨.net .readBody,.ok chunk⟩ => chunk.length
  | ⟨.net .s3Read,.ok (some chunk)⟩ => chunk.length
  | _ => 0

/-- The bytes handed to a write of a temporary file, successful or not. -/
def appended : Event → ℕ
  | ⟨.fs (.appendTmp _ buf),_⟩ => buf.length
  | _ => 0

/-- A request for an object. -/
def contacts : Event → Bool
  | ⟨.net (.send _ _),_⟩ => true
  | ⟨.net (.s3Get _),_⟩ => true
  | _ => false

/-- A blob or a sidecar moving into place. -/
def publishes : Event → Bool
  | ⟨.fs (.persistBlob _ _),_⟩ => true
  | ⟨.fs (.persistSidecar _ _),_⟩ => true
  | _ => false

/-- The start of an attempt. -/
def opens : Event → Bool
  | ⟨.fs .createTmp,_⟩ => true
  | _ => false

/-- Neither a chunk nor a write. -/
def plain (e : Event) : Prop := e.offered = 0 ∧ e.appended = 0

/-- What may still happen after the budget was exceeded. -/
def harmless (e : Event) : Prop :=
  e.plain ∧ e.contacts = false ∧ e.publishes = false ∧ e.opens = false

end Event

def offeredBy (log : List Event) : ℕ := (log.map Event.offered).sum
def appendedBy (log : List Event) : ℕ := (log.map Event.appended).sum

/-- The events of the current attempt. -/
def attempt (log : List Event) : List Event := log.rtakeWhile fun e => !e.opens

/-- After an offer that did not fit, nothing of its attempt is published, nothing else is
published, and nobody else is asked. -/
def Stops (limit : ℕ) (log : List Event) : Prop :=
  ∀ before e after, log = before ++ e :: after → limit < offeredBy (before++[e]) →
    (∀ x ∈ attempt before ++ after, x.publishes = false) ∧ ∀ x ∈ after, x.contacts = false

/-- What holds of a log at every moment. -/
structure Metered (limit : ℕ) (log : List Event) : Prop where
  appended : appendedBy log ≤ limit
  stops : Stops limit log

/-- Within the budget, of which `left` is left. -/
structure Open (limit left : ℕ) (log : List Event) : Prop where
  offered : offeredBy log+left = limit
  appended : appendedBy log+left ≤ limit

/-- Past the budget. -/
structure Over (limit : ℕ) (log : List Event) : Prop where
  offered : limit < offeredBy log
  metered : Metered limit log
  unpublished : ∀ x ∈ attempt log, x.publishes = false

section log
variable {limit left : ℕ} {log : List Event} {e : Event}

@[simp] theorem offeredBy_append (log : List Event) (e : Event) :
    offeredBy (log++[e]) = offeredBy log+e.offered := by simp [offeredBy]

@[simp] theorem appendedBy_append (log : List Event) (e : Event) :
    appendedBy (log++[e]) = appendedBy log+e.appended := by simp [appendedBy]

theorem offeredBy_le_append (before after : List Event) :
    offeredBy before ≤ offeredBy (before++after) := by simp [offeredBy]

/-- While everything fits there is nothing to stop. -/
theorem Stops.of_le (h : offeredBy log ≤ limit) : Stops limit log := by
  rintro before e after rfl hlt
  have := offeredBy_le_append (before++[e]) after
  rw [List.append_assoc,List.singleton_append] at this
  omega

theorem Open.metered (h : Open limit left log) : Metered limit log :=
  ⟨by have := h.appended; omega,.of_le (by have := h.offered; omega)⟩

theorem Open.plain (h : Open limit left log) (he : e.plain) : Open limit left (log++[e]) :=
  ⟨by simpa [he.1] using h.offered,by simpa [he.2] using h.appended⟩

theorem attempt_opens (he : e.opens = true) : attempt (log++[e]) = [] :=
  List.rtakeWhile_concat_neg _ _ _ (by simp [he])

theorem mem_attempt_append {x : Event} (hx : x ∈ attempt (log++[e])) : x ∈ attempt log ∨ x = e := by
  by_cases he : e.opens = true
  · rw [attempt_opens he] at hx
    cases hx
  · rw [attempt,List.rtakeWhile_concat_pos _ _ _ (by simpa using he)] at hx
    simpa [attempt] using hx

theorem unpublished_append (h : ∀ x ∈ attempt log, x.publishes = false)
    (he : e.publishes = false) : ∀ x ∈ attempt (log++[e]), x.publishes = false := by
  intro x hx
  rcases mem_attempt_append hx with hx | rfl
  · exact h x hx
  · exact he

/-- One more event after the log: the splits of the longer log. -/
theorem Stops.append (h : Stops limit log) (hcontacts : e.contacts = false)
    (hpublishes : e.publishes = false) (hattempt : limit < offeredBy (log++[e]) →
      ∀ x ∈ attempt log, x.publishes = false) : Stops limit (log++[e]) := by
  intro before e' after hsplit hlt
  rcases List.eq_nil_or_concat after with rfl | ⟨after',last,rfl⟩
  · obtain ⟨rfl,he⟩ := List.append_inj' hsplit rfl
    cases he
    exact ⟨by simpa using hattempt hlt,by simp⟩
  · have hsplit' : log++[e] = (before ++ e' :: after')++[last] := by simpa using hsplit
    obtain ⟨hlog,he⟩ := List.append_inj' hsplit' rfl
    cases he
    obtain ⟨hp,hc⟩ := h before e' after' hlog hlt
    refine ⟨fun x hx => ?_,fun x hx => ?_⟩
    · simp only [List.concat_eq_append,List.mem_append,List.mem_singleton] at hx
      rcases hx with hx | hx | rfl
      · exact hp x (List.mem_append_left _ hx)
      · exact hp x (List.mem_append_right _ hx)
      · exact hpublishes
    · simp only [List.concat_eq_append,List.mem_append,List.mem_singleton] at hx
      rcases hx with hx | rfl
      · exact hc x hx
      · exact hcontacts

theorem Over.harmless (h : Over limit log) (he : e.harmless) : Over limit (log++[e]) := by
  obtain ⟨⟨ho,ha⟩,hc,hp,-⟩ := he
  exact ⟨by simpa [ho] using h.offered,
    ⟨by simpa [ha] using h.metered.appended,h.metered.stops.append hc hp fun _ => h.unpublished⟩,
    unpublished_append h.unpublished hp⟩

/-- A chunk has arrived and is about to be written. -/
structure Arrived (limit left : ℕ) (chunk : Bytes) (log : List Event) : Prop where
  offered : offeredBy log+left = limit+chunk.length
  appended : appendedBy log+left ≤ limit
  metered : Metered limit log
  unpublished : ∀ x ∈ attempt log, x.publishes = false

end log

/-- What a read of a body does to the log. -/
structure Reads (read : Prog (Except DatastoreError (Option Bytes))) (c : Call)
    (f : c.Ret → Except DatastoreError (Option Bytes)) : Prop where
  eq : read = .perform c >>= fun r => .done (f r)
  harmless : ∀ r, Event.appended ⟨c,r⟩ = 0 ∧ Event.contacts ⟨c,r⟩ = false ∧
    Event.publishes ⟨c,r⟩ = false
  offered : ∀ r, Event.offered ⟨c,r⟩ = match f r with
    | .ok (some chunk) => chunk.length
    | _ => 0

/-- The calls of a resolution that neither bring nor write a chunk. -/
def Call.plain : Call → Bool
  | .fs (.appendTmp _ _) | .fs (.unlinkBlob _) | .fs (.unlinkSidecar _) => false
  | .net .readBody | .net .s3Read => false
  | .cache _ => false
  | _ => true

/-- The calls of a publication under `key` that need the lock of the store, which write no
other sidecar than `entry`. -/
def Call.placing (key : ArtifactKey) (entry : IndexEntry) : Call → Bool
  | .fs (.persistSidecar path e) => path = indexPath key && e = entry
  | .fs (.readTmp _) | .fs (.dropTmp _) | .fs (.syncTmp _) | .fs (.isBlob _) | .fs (.readBlob _) | .fs (.createBlobDir _) | .fs (.persistBlob _ _)
  | .fs (.syncBlobDir _) | .fs (.createIndexDirs _) | .fs (.stageSidecar _)
  | .fs (.syncIndexDir _) => true
  | _ => false

/-- The calls of a publication, which takes no other lock than that of the store. -/
def Call.publishing (key : ArtifactKey) (entry : IndexEntry) : Call → Bool
  | .fs (.lock name) | .fs (.unlock name) => name = Layout.storeLockName
  | c => c.placing key entry

theorem Call.publishing_of_placing {key : ArtifactKey} {entry : IndexEntry} (c : Call)
    (h : c.placing key entry = true) : c.publishing key entry = true := by
  cases c with
  | fs c => cases c <;> first | exact h | cases h
  | net c => cases h
  | cache c => cases h

theorem Call.plain_of_publishing {key : ArtifactKey} {entry : IndexEntry} {c : Call}
    (h : c.publishing key entry = true) : c.plain = true := by
  cases c with
  | fs c => cases c <;> first | rfl | cases h
  | net c => cases h
  | cache c => cases h

theorem FsCall.plain_of_looks (c : FsCall) (h : c.looks = true) : Call.plain (.fs c) = true := by
  cases c <;> first | rfl | cases h

theorem Event.plain_of {c : Call} (h : c.plain = true) (r : c.Ret) : Event.plain ⟨c,r⟩ := by
  cases c with
  | fs c => cases c <;> first | exact ⟨rfl,rfl⟩ | cases h
  | net c => cases c <;> first | exact ⟨rfl,rfl⟩ | cases h
  | cache c => cases h

/-- Any replies at all, with the meter kept at every moment. -/
def metering (limit : ℕ) : Setting Call Call.Ret (List Event) := .logged (Metered limit)

/-- The sink of an attempt: within the budget, or past it and refusing everything. -/
inductive Sunk (limit : ℕ) (rcv : Receiver) (log : List Event) : Prop
  | within {left} (exceeded : rcv.limitExceeded = false) (budget : rcv.budget = some left)
      (opened : Open limit left log) (unpublished : ∀ x ∈ attempt log, x.publishes = false)
  | beyond (exceeded : rcv.limitExceeded = true) (beyond : Over limit log)

/-- A use of the sink that only succeeds within the budget. -/
structure Used {α ε : Type} (limit : ℕ) (out : Except ε α × Receiver) (log : List Event) : Prop where
  sunk : Sunk limit out.2 log
  within : ∀ a, out.1 = .ok a → out.2.limitExceeded = false

/-- A producer that charges every chunk. -/
def Meters {α : Type} (limit : ℕ) (producer : Producer α) : Prop :=
  ∀ rcv log, Sunk limit rcv log → rcv.limitExceeded = false →
    (producer rcv).Holds (metering limit) (Used limit) log

/-- The end of an attempt: within the budget with what is left of it, or past it, and then
the error says so. -/
inductive Attempted {α : Type} (limit : ℕ) :
    Except DatastoreError α × Option ℕ → List Event → Prop
  | within {r left log} (opened : Open limit left log) : Attempted limit (r,some left) log
  | beyond {left log} (beyond : Over limit log) : Attempted limit (.error .transferLimit,left) log

/-- The end of a call. -/
inductive Metered.End {α : Type} (limit : ℕ) : Except DatastoreError α → List Event → Prop
  | within {r left log} (opened : Open limit left log) : Metered.End limit r log
  | beyond {log} (beyond : Over limit log) : Metered.End limit (.error .transferLimit) log

section metering
variable {limit left : ℕ} {log : List Event} {rcv : Receiver} {H : Sha256} {U : UrlCrate}
  {α ε : Type}

theorem Sunk.used (h : Sunk limit rcv log) (hx : rcv.limitExceeded = false) (r : Except ε α) :
    Used limit (r,rcv) log := ⟨h,fun _ _ => hx⟩

theorem Sunk.holds_done (h : Sunk limit rcv log) (hx : rcv.limitExceeded = false) (r : Except ε α) :
    (Program.done (r,rcv) : Prog (Except ε α × Receiver)).Holds (metering limit) (Used limit) log := by
  rintro log' rfl
  exact h.used hx r

/-- A failed use of the sink, whether it is past the budget or not. -/
theorem Sunk.holds_error (h : Sunk limit rcv log) (e : ε) :
    (Program.done ((.error e : Except ε α),rcv) : Prog (Except ε α × Receiver)).Holds (metering limit)
      (Used limit) log := by
  rintro log' rfl
  exact ⟨h,by simp⟩

theorem Open.holds_plain {p : Prog α} (h : Open limit left log) (hp : p.Only fun c => c.plain = true) :
    p.Holds (metering limit) (fun _ log => Open limit left log) log := by
  refine .of_only hp (fun _ _ hr hs => hr ▸ hs) (fun c s r s' hc hs hstep => ?_) h
  have hstep : s' = s++[⟨c,r⟩] := hstep
  subst hstep
  have := hs.plain (Event.plain_of hc r)
  exact ⟨this.metered,this⟩

theorem showHead_exceeded (H : Sha256) (rcv : Receiver) (buf : Bytes) :
    (rcv.showHead H buf).limitExceeded = rcv.limitExceeded := by
  simp only [Receiver.showHead]
  split
  · rfl
  · split <;> rfl

theorem writeAll_used {buf : Bytes} (hx : rcv.limitExceeded = false) (hb : rcv.budget = some left)
    (h : Arrived limit left buf log) :
    (rcv.writeAll H buf).Holds (metering limit) (Used limit) log := by
  unfold Receiver.writeAll
  split
  · rename_i hnil
    subst hnil
    exact Sunk.holds_done (.within hx hb ⟨by simpa using h.offered,h.appended⟩ h.unpublished) hx _
  · by_cases hlt : left < buf.length
    · have hover : limit < offeredBy log := by
        have := h.offered
        omega
      have hcharge : rcv.charge buf = none := by simp [Receiver.charge,hb,hlt]
      simp only [Receiver.write,hcharge]
      exact Sunk.holds_error (.beyond rfl ⟨hover,h.metered,h.unpublished⟩) _
    · have hopen : Open limit (left-buf.length) log := by
        have := h.offered
        have := h.appended
        exact ⟨by omega,by omega⟩
      obtain ⟨rcv₁,hcharge,hx₁,hb₁⟩ : ∃ rcv₁, rcv.charge buf = some rcv₁ ∧
          rcv₁.limitExceeded = false ∧ rcv₁.budget = some (left-buf.length) :=
        ⟨{ rcv with budget := some (left-buf.length) },by simp [Receiver.charge,hb,hx,hlt],hx,rfl⟩
      obtain ⟨-,-,-,hb₂⟩ := Receiver.showHead_same H rcv₁ buf
      have hx₂ := (showHead_exceeded H rcv₁ buf).trans hx₁
      simp only [Receiver.write,hcharge]
      split
      · exact Sunk.holds_error (.within hx₁ hb₁ hopen h.unpublished) _
      · split
        · exact Sunk.holds_error (.within hx₂ (hb₂.trans hb₁) hopen h.unpublished) _
        · -- the chunk is written, in full or in part
          refine Program.Holds.perform_bind fun log₁ hlog₁ r log₂ hlog₂ => ?_
          obtain rfl : log = log₁ := hlog₁
          obtain ⟨e,he,happ,hrest⟩ : ∃ e : Event, log₂ = log++[e] ∧ e.appended = buf.length ∧
              e.offered = 0 ∧ e.publishes = false := ⟨_,hlog₂,rfl,rfl,rfl⟩
          subst he
          have hopen₂ : Open limit (left-buf.length) (log++[e]) := by
            have := h.offered
            have := h.appended
            refine ⟨?_,?_⟩
            · rw [offeredBy_append,hrest.1]
              omega
            · rw [appendedBy_append,happ]
              omega
          have hun := unpublished_append h.unpublished hrest.2
          refine ⟨hopen₂.metered,?_⟩
          cases r with
          | error e => exact Sunk.holds_error (.within hx₂ (hb₂.trans hb₁) hopen₂ hun) _
          | ok out =>
            have hsunk : Sunk limit { rcv₁.showHead H buf with
                hashed := (rcv₁.showHead H buf).hashed++buf,
                bytes := (rcv₁.showHead H buf).bytes+buf.length } (log++[e]) :=
              .within hx₂ (hb₂.trans hb₁) hopen₂ hun
            exact hsunk.holds_done hx₂ _

theorem copy_meters {read : Prog (Except DatastoreError (Option Bytes))} {c : Call}
    {f : c.Ret → Except DatastoreError (Option Bytes)} (hread : Reads read c f) (reads : ℕ) :
    Meters limit (copy H read reads) := by
  obtain rfl := hread.eq
  induction reads with
  | zero => exact fun rcv log h hx => h.holds_done hx _
  | succ reads ih =>
    intro rcv log h hx
    cases h with
    | beyond hx' _ =>
      rw [hx] at hx'
      cases hx'
    | @within left _ hb hopen hun =>
      refine Program.Holds.perform_bind fun log₁ hlog₁ r log₂ hlog₂ => ?_
      obtain rfl : log = log₁ := hlog₁
      obtain ⟨e,he,hoff,hharm⟩ : ∃ e : Event, log₂ = log++[e] ∧ e = ⟨c,r⟩ ∧ e.appended = 0 ∧
          e.contacts = false ∧ e.publishes = false := ⟨_,hlog₂,rfl,hread.harmless r⟩
      replace hoff : e.offered = match f r with
        | .ok (some chunk) => chunk.length
        | _ => 0 := hoff ▸ hread.offered r
      subst he
      obtain ⟨happ,hcon,hpub⟩ := hharm
      have hun₂ := unpublished_append hun hpub
      have hmetered : Metered limit (log++[e]) :=
        ⟨by simpa [happ] using hopen.metered.appended,hopen.metered.stops.append hcon hpub fun _ => hun⟩
      refine ⟨hmetered,?_⟩
      match hf : f r with
      | .error e' =>
        rw [hf] at hoff
        exact Sunk.holds_done (.within hx hb (hopen.plain ⟨hoff,happ⟩) hun₂) hx _
      | .ok none =>
        rw [hf] at hoff
        exact Sunk.holds_done (.within hx hb (hopen.plain ⟨hoff,happ⟩) hun₂) hx _
      | .ok (some chunk) =>
        rw [hf] at hoff
        have harrived : Arrived limit left chunk (log++[e]) := by
          refine ⟨?_,?_,hmetered,hun₂⟩
          · have := hopen.offered
            rw [offeredBy_append,hoff]
            simp only
            omega
          · simpa [happ] using hopen.appended
        refine Program.Holds.bind ((writeAll_used hx hb harrived).mono ?_)
        rintro ⟨r',rcv'⟩ log₃ hused
        cases r' with
        | error e' => exact hused.sunk.holds_error _
        | ok out => exact ih rcv' log₃ hused.sunk (hused.within out rfl)

theorem readBody_reads : Reads readBody (.net .readBody) chunkOf where
  eq := rfl
  harmless _ := ⟨rfl,rfl,rfl⟩
  offered r := by
    match r with
    | .error _ => rfl
    | .ok [] => rfl
    | .ok (_ :: _) => rfl

/-- What a read of an S3 body stream makes of the reply. -/
def s3Chunk : Except Unit (Option Bytes) → Except DatastoreError (Option Bytes)
  | .error () => .error (.mirror "S3 body stream failed")
  | .ok chunk => .ok chunk

theorem readS3_reads : Reads readS3 (.net .s3Read) s3Chunk where
  eq := by
    refine congrArg (Program.call _) (funext fun r => ?_)
    cases r <;> rfl
  harmless _ := ⟨rfl,rfl,rfl⟩
  offered r := by
    match r with
    | .error () => rfl
    | .ok none => rfl
    | .ok (some chunk) => rfl

/-- Events that neither move bytes nor publish nor start an attempt keep the sink as it is. -/
theorem Sunk.holds_quiet {p : Prog α} (h : Sunk limit rcv log) (hx : rcv.limitExceeded = false)
    (hp : p.Only fun c => c.plain = true ∧ ∀ r, Event.publishes ⟨c,r⟩ = false) :
    p.Holds (metering limit) (fun _ log => Sunk limit rcv log) log := by
  refine .of_only hp (fun _ _ hr hs => hr ▸ hs) (fun c s r s' hc hs hstep => ?_) h
  have hstep : s' = s++[⟨c,r⟩] := hstep
  subst hstep
  cases hs with
  | beyond hx' _ =>
    rw [hx] at hx'
    cases hx'
  | within hx' hb hopen hun =>
    have hopen' := hopen.plain (Event.plain_of hc.1 r)
    exact ⟨hopen'.metered,.within hx' hb hopen' (unpublished_append hun (hc.2 r))⟩

/-- Renaming the result of a producer, errors to errors. -/
theorem Used.rename {β δ : Type} {r : Except ε α} {r' : Except δ β} (h : Used limit (r,rcv) log)
    (hr : ∀ b, r' = .ok b → ∃ a, r = .ok a) :
    (Program.done (r',rcv) : Prog (Except δ β × Receiver)).Holds (metering limit) (Used limit) log := by
  rintro log' rfl
  refine ⟨h.sunk,fun b hb => ?_⟩
  obtain ⟨a,ha⟩ := hr b hb
  exact h.within a ha

theorem copied_meters {producer : Producer Unit} (h : Meters limit producer) (a : α) :
    Meters limit fun w => do
      match ← producer w with
      | (.error e,w) => return (.error e,w)
      | (.ok (),w) => return (.ok a,w) := by
  intro rcv log hsunk hx
  refine Program.Holds.bind ((h rcv log hsunk hx).mono fun out log' hused => ?_)
  obtain ⟨r,rcv'⟩ := out
  cases r with
  | ok done => exact hused.rename fun _ _ => ⟨done,rfl⟩
  | error e => exact hused.rename (by simp)

variable {f : Fetcher} {source : Source}

theorem request_meters : Meters limit (f.request H U source) := by
  intro rcv log h hx
  refine Program.Holds.bind ((h.holds_quiet hx (navigate_only (fun _ _ => ⟨rfl,fun _ => rfl⟩)
    ⟨rfl,fun _ => rfl⟩)).mono fun r log' h => ?_)
  match r with
  | .error e => exact h.holds_done hx _
  | .ok none => exact h.holds_done hx _
  | .ok (some (response,download)) =>
    exact copied_meters (copy_meters readBody_reads _) (some download) rcv log' h hx

theorem fetch_meters (mirror : Mirror) (key : ArtifactKey) :
    Meters limit (mirror.fetch H U key) := by
  intro rcv log h hx
  cases mirror with
  | http base =>
    refine Program.Holds.bind ((request_meters rcv log h hx).mono fun out log' hused => ?_)
    obtain ⟨r,rcv'⟩ := out
    cases r with
    | ok found => exact hused.rename fun _ _ => ⟨found,rfl⟩
    | error e => exact hused.rename (by simp)
  | s3 bucket pre =>
    refine Program.Holds.bind ((h.holds_quiet hx (.perform ⟨rfl,fun _ => rfl⟩)).mono
      fun r log' h => ?_)
    match r with
    | .error code => exact h.holds_done hx _
    | .ok none => exact h.holds_done hx _
    | .ok (some reads) =>
      exact copied_meters (copy_meters readS3_reads _) (some ()) rcv log' h hx

theorem Open.holds_drop (h : Open limit left log) (tmp : ℕ) (r : Except DatastoreError α) :
    (do
      let _ ← fs (.dropTmp tmp)
      return (r,some left) : Prog _).Holds (metering limit) (Attempted limit) log :=
  Program.Holds.bind ((h.holds_plain (.perform rfl)).mono fun _ log h => by
    rintro log' rfl
    exact .within h)

theorem Over.holds_drop (h : Over limit log) (tmp : ℕ) (left : Option ℕ) :
    (do
      let _ ← fs (.dropTmp tmp)
      return ((.error .transferLimit : Except DatastoreError α),left) : Prog _).Holds
      (metering limit) (Attempted limit) log := by
  refine Program.Holds.perform_bind fun log₁ hlog₁ r log₂ hlog₂ => ?_
  obtain rfl : log = log₁ := hlog₁
  have hlog₂ : log₂ = log++[⟨.fs (.dropTmp tmp),r⟩] := hlog₂
  subst hlog₂
  have hover := h.harmless (e := ⟨.fs (.dropTmp tmp),r⟩) ⟨⟨rfl,rfl⟩,rfl,rfl,rfl⟩
  refine ⟨hover.metered,?_⟩
  rintro log' rfl
  exact .beyond hover

theorem conclude_attempted (tmp : ℕ) (h : Sunk limit rcv log) {artifact : Artifact}
    {result : Except DatastoreError (Option α)} :
    (rcv.conclude H tmp (rcv.verdict H artifact result)).Holds (metering limit)
      (Attempted limit) log := by
  cases h with
  | beyond hx hover =>
    have hverdict : rcv.verdict H artifact result = .error .transferLimit := by
      simp [Receiver.verdict,hx]
    rw [hverdict]
    exact hover.holds_drop tmp _
  | within hx hb hopen hun =>
    unfold Receiver.conclude
    rw [hb]
    match rcv.verdict H artifact result with
    | .error e => exact hopen.holds_drop tmp _
    | .ok none => exact hopen.holds_drop tmp _
    | .ok (some info) =>
      rintro log' rfl
      exact .within hopen

theorem receive_attempted {artifact : Artifact} {producer : Producer (Option α)}
    (hp : Meters limit producer) (h : Open limit left log) :
    (receive H artifact (some left) producer).Holds (metering limit) (Attempted limit) log := by
  refine Program.Holds.perform_bind fun log₁ hlog₁ r log₂ hlog₂ => ?_
  obtain rfl : log = log₁ := hlog₁
  have hlog₂ : log₂ = log++[⟨.fs .createTmp,r⟩] := hlog₂
  subst hlog₂
  have hopen := h.plain (e := ⟨.fs .createTmp,r⟩) ⟨rfl,rfl⟩
  refine ⟨hopen.metered,?_⟩
  cases r with
  | error e =>
    rintro log' rfl
    exact .within hopen
  | ok tmp =>
    have hempty : attempt (log++[⟨.fs .createTmp,.ok tmp⟩]) = [] := attempt_opens rfl
    refine Program.Holds.bind ((hp _ _ (.within rfl rfl hopen (by simp [hempty])) rfl).mono ?_)
    rintro ⟨result,rcv⟩ log₃ hused
    exact conclude_attempted tmp hused.sunk

end metering

section plain
variable {H : Sha256} {U : UrlCrate} {ds : Datastore} {artifact : Artifact} {α : Type}

theorem io_only {P : Call → Prop} {c : FsCall} (h : P (.fs c)) : (io c).run.Only P :=
  .bind (.perform h) fun _ => trivial

theorem validate_only {P : Call → Prop} {read : FsCall} {content : read.Out → Bytes} {bytes : ℕ}
    {digest : String} (hread : P (.fs read)) :
    (validate H artifact read content bytes digest).run.Only P := by
  unfold validate
  refine .bind_run (.lift_except _) fun _ => .bind_run (.lift (.perform hread)) fun r => ?_
  cases r <;> trivial

variable {entry : IndexEntry}

theorem keep_placing (key : ArtifactKey) (tmp : ℕ) (digest : String) :
    (Layout.keep H tmp digest).run.Only fun c => c.placing key entry = true :=
  .bind (.bind_run (io_only rfl) fun _ => trivial) fun _ => .bind (.perform rfl) fun _ => trivial

theorem place_placing (key : ArtifactKey) (tmp : ℕ) (digest : String) :
    (Layout.place tmp digest).run.Only fun c => c.placing key entry = true := by
  refine .bind (.bind_run (io_only rfl) fun _ => .bind_run (io_only rfl) fun _ => io_only rfl)
    fun r => ?_
  cases r with
  | error e => exact .bind (.perform rfl) fun _ => trivial
  | ok moved => exact .bind_run (io_only rfl) fun _ => trivial

theorem publishLocked_placing (tmp : ℕ) :
    (publishLocked H artifact tmp entry).run.Only fun c => c.placing artifact.key entry = true := by
  refine .bind_run (.bind (isFile_only rfl) fun found => ?_) fun found => ?_
  · cases found
    · exact place_placing _ _ _
    · exact keep_placing _ _ _
  · cases found with
    | none => trivial
    | some path =>
      exact .bind_run (.bind_run (io_only rfl) fun _ => .bind_run (io_only rfl) fun _ =>
        .bind_run (io_only (by simp [Call.placing])) fun _ => io_only rfl) fun _ => trivial

/-- Publication writes no other sidecar than the one it is for. -/
theorem publish_publishing (tmp : ℕ) :
    (publish H artifact tmp entry).run.Only fun c => c.publishing artifact.key entry = true := by
  refine .bind (validate_only rfl) fun r => ?_
  cases r with
  | error e => exact .bind (.perform rfl) fun _ => trivial
  | ok passed =>
    refine .bind (.perform rfl) fun r => ?_
    cases r with
    | error e => exact .bind (.perform rfl) fun _ => trivial
    | ok locked =>
      exact .bind ((publishLocked_placing _).mono Call.publishing_of_placing) fun _ =>
        .bind (.perform rfl) fun _ => trivial

theorem publishReceived_only {P : Call → Prop} {received : Received α} {layer : Layer}
    {source etag identity : Option String} (hnow : P (.fs .now))
    (h : ∀ c (entry : IndexEntry), entry.providerIdentity = identity →
      c.publishing artifact.key entry = true → P c) :
    (Datastore.publishReceived H artifact received layer source etag identity).run.Only P :=
  .bind_run (.lift (nowUnix_only hnow)) fun _ =>
    .bind_run ((publish_publishing _).mono fun c hc => h c _ rfl hc) fun _ => trivial

theorem publishReceived_plain {received : Received α} {layer : Layer}
    {source etag identity : Option String} :
    (Datastore.publishReceived H artifact received layer source etag identity).run.Only
      fun c => c.plain = true :=
  publishReceived_only rfl fun _ _ _ hc => Call.plain_of_publishing hc

theorem localHit_only {P : Call → Prop} (h : ∀ c : FsCall, c.looks = true → P (.fs c))
    (entry : IndexEntry) : (Datastore.localHit H artifact entry).run.Only P := by
  refine .bind_run (.lift (isFile_only (h _ rfl))) fun found => ?_
  split
  · trivial
  · split
    · trivial
    · refine .bind_run (io_only (h _ rfl)) fun length => ?_
      simp only
      split
      · trivial
      · refine .bind_run (.bind_run (io_only (h _ rfl)) fun _ => trivial) fun actual => ?_
        split
        · trivial
        · exact .bind_run (validate_only (h _ rfl)) fun _ => trivial

theorem lookupLocal_only {P : Call → Prop} (h : ∀ c : FsCall, c.looks = true → P (.fs c)) :
    (ds.lookupLocal H artifact).run.Only P := by
  refine .bind_run (readEntry_only _ _ (h _ rfl)) fun found => ?_
  cases found with
  | none => trivial
  | some entry =>
    refine .bind_run (localHit_only h entry) fun hit => ?_
    cases hit <;> trivial

end plain

section calls
variable {limit left : ℕ} {log : List Event} {H : Sha256} {U : UrlCrate} {ds : Datastore}
  {artifact : Artifact}

theorem publishReceived_attempted {α β : Type} {received : Received α} {layer : Layer}
    {source etag identity : Option String} (h : Open limit left log)
    (f : Except DatastoreError (List String × ℕ) → Except DatastoreError β) :
    (do
      let result ← (Datastore.publishReceived H artifact received layer source etag identity).run
      return (f result,some left) : Prog _).Holds (metering limit) (Attempted limit) log :=
  Program.Holds.bind ((h.holds_plain publishReceived_plain).mono fun _ _ h => by
    rintro log' rfl
    exact .within h)

theorem fetchFromMirror_attempted (mirror : Mirror) (h : Open limit left log) :
    (Datastore.fetchFromMirror H U artifact mirror (some left)).Holds (metering limit)
      (Attempted limit) log := by
  refine Program.Holds.bind ((receive_attempted (fetch_meters mirror _) h).mono ?_)
  rintro ⟨r,budget⟩ log₁ h₁
  cases h₁ with
  | beyond hover =>
    rintro log' rfl
    exact .beyond hover
  | within hopen =>
    match r with
    | .error e =>
      rintro log' rfl
      exact .within hopen
    | .ok none =>
      rintro log' rfl
      exact .within hopen
    | .ok (some received) => exact publishReceived_attempted hopen _

theorem fetchFromUpstream_attempted (source : Source) (h : Open limit left log) :
    (ds.fetchFromUpstream H U artifact source (some left)).Holds (metering limit)
      (Attempted limit) log := by
  refine Program.Holds.bind ((receive_attempted request_meters h).mono ?_)
  rintro ⟨r,budget⟩ log₁ h₁
  cases h₁ with
  | beyond hover =>
    rintro log' rfl
    exact .beyond hover
  | within hopen =>
    match r with
    | .error e =>
      rintro log' rfl
      exact .within hopen
    | .ok none =>
      rintro log' rfl
      exact .within hopen
    | .ok (some received) => exact publishReceived_attempted hopen id

theorem trySources_ends (sources : List Source) :
    ∀ {index left attempts log}, Open limit left log →
      (ds.trySources H U artifact sources index (some left) attempts).run.Holds (metering limit)
        (Metered.End limit) log := by
  induction sources with
  | nil =>
    rintro index left attempts log h log' rfl
    exact .within h
  | cons source sources ih =>
    intro index left attempts log h
    refine Program.Holds.bind ((fetchFromUpstream_attempted source h).mono ?_)
    rintro ⟨r,budget⟩ log₁ h₁
    cases h₁ with
    | beyond hover =>
      rintro log' rfl
      exact .beyond hover
    | within hopen =>
      cases r with
      | ok found =>
        rintro log' rfl
        exact .within hopen
      | error e =>
        simp only
        split
        · rintro log' rfl
          exact .within hopen
        · split
          · rintro log' rfl
            exact .within hopen
          · exact ih hopen

theorem fetchUpstream_ends (reason : String) (h : Open limit left log) :
    (ds.fetchUpstream H U artifact reason (some left)).run.Holds (metering limit)
      (Metered.End limit) log := by
  unfold Datastore.fetchUpstream
  split
  · rintro log' rfl
    exact .within h
  · split
    · rintro log' rfl
      exact .within h
    · exact trySources_ends _ h

theorem fetchChain_ends (h : Open limit left log) :
    (ds.fetchChain H U artifact (some left)).run.Holds (metering limit) (Metered.End limit) log := by
  unfold Datastore.fetchChain
  split
  · exact fetchUpstream_ends _ h
  · refine Program.Holds.bind ((fetchFromMirror_attempted _ h).mono ?_)
    rintro ⟨r,budget⟩ log₁ h₁
    cases h₁ with
    | beyond hover =>
      rintro log' rfl
      exact .beyond hover
    | within hopen =>
      match r with
      | .ok (some (path,bytes)) =>
        rintro log' rfl
        exact .within hopen
      | .ok none => exact fetchUpstream_ends _ hopen
      | .error e =>
        simp only
        split
        · rintro log' rfl
          exact .within hopen
        · exact fetchUpstream_ends _ hopen

theorem withLock_ends {name : String} {body : Op (List String × ResolveOutcome)}
    (hbody : ∀ log, Open limit left log → body.run.Holds (metering limit) (Metered.End limit) log)
    (h : Open limit left log) :
    (withLock name body).run.Holds (metering limit) (Metered.End limit) log := by
  refine Program.Holds.bind_run ((h.holds_plain (io_only rfl)).mono fun locked log h => ?_)
  cases locked with
  | error e => exact .within h
  | ok locked =>
    refine Program.Holds.bind ((hbody log h).mono fun r log hend => ?_)
    refine Program.Holds.perform_bind fun log₁ hlog₁ u log₂ hlog₂ => ?_
    obtain rfl : log = log₁ := hlog₁
    have hlog₂ : log₂ = log++[⟨.fs (.unlock _),u⟩] := hlog₂
    subst hlog₂
    cases hend with
    | within hopen =>
      have hopen := hopen.plain (e := ⟨.fs (.unlock _),u⟩) ⟨rfl,rfl⟩
      refine ⟨hopen.metered,?_⟩
      rintro log' rfl
      exact .within hopen
    | beyond hover =>
      have hover := hover.harmless (e := ⟨.fs (.unlock _),u⟩) ⟨⟨rfl,rfl⟩,rfl,rfl,rfl⟩
      refine ⟨hover.metered,?_⟩
      rintro log' rfl
      exact .beyond hover

theorem getWithBudget_ends (h : Open limit left log) :
    (ds.getWithBudget H U artifact (some left)).run.Holds (metering limit) (Metered.End limit) log := by
  refine withLock_ends (fun log h => ?_) h
  refine Program.Holds.bind_run ((h.holds_plain (lookupLocal_only FsCall.plain_of_looks)).mono fun found log h => ?_)
  rcases found with e | _ | ⟨path,entry⟩
  · exact .within h
  · simp only
    split
    · rintro log' rfl
      exact .within h
    · exact fetchChain_ends h
  · simp only
    split <;>
    · rintro log' rfl
      exact .within h

theorem getLimited_ends (limit : ℕ) :
    (ds.getLimited H U artifact limit).run.Holds (metering limit) (Metered.End limit) [] := by
  have hopen : Open limit limit [] := ⟨by simp [offeredBy],by simp [appendedBy]⟩
  refine Program.Holds.bind_run ((getWithBudget_ends hopen).mono fun r log hend => ?_)
  cases hend with
  | beyond hover => exact .beyond hover
  | within hopen =>
    cases r with
    | error e => exact .within hopen
    | ok found =>
      rintro log' rfl
      exact .within hopen

/-- A step adds no more to the files of its thread than the bytes it was given. -/
theorem written_le {t : ThreadId} {c : Call} {w w' : World} {r : c.Ret} (h : c.Does t w r w') :
    w'.written t ≤ w.written t+Event.appended ⟨c,r⟩ := by
  by_cases hread : c.readOnly = true
  · rw [h.readOnly hread]
    omega
  cases c with
  | net c => exact absurd rfl hread
  | cache c => rw [h.cache_written]; omega
  | fs c =>
    cases c with
    | appendTmp tmp buf =>
      have happ : ∀ file n, (w.append t tmp file (buf.take n)).written t ≤ w.written t+buf.length := by
        intro file n
        simp only [World.append,Function.update_self,List.length_take]
        omega
      cases r with
      | ok out =>
        obtain ⟨file,-,rfl⟩ := h.appendTmp
        have := happ file buf.length
        rwa [List.take_length] at this
      | error e =>
        rcases h.appendTmp_error with rfl | ⟨file,n,-,rfl⟩
        · exact Nat.le_add_right _ _
        · exact happ file n
    | lock name =>
      cases r with
      | error e => rw [h.error (by simp)]; omega
      | ok out => obtain ⟨-,rfl⟩ := h.lock; exact Nat.le_add_right _ _
    | unlock name => rcases h.unlock with rfl | ⟨-,rfl⟩ <;> exact Nat.le_add_right _ _
    | createIndexDirs path => obtain ⟨dirs,rfl⟩ := h.createIndexDirs; exact Nat.le_add_right _ _
    | persistSidecar path entry => rcases h.persistSidecar with rfl | rfl <;> exact Nat.le_add_right _ _
    | unlinkSidecar path => rcases h.unlinkSidecar with ⟨rfl,-⟩ | rfl <;> exact Nat.le_add_right _ _
    | persistBlob tmp digest =>
      cases r with
      | error e => rw [h.error (by simp)]; omega
      | ok out => obtain ⟨file,-,rfl⟩ := h.persistBlob; exact Nat.le_add_right _ _
    | unlinkBlob digest => rcases h.unlinkBlob with rfl | rfl <;> exact Nat.le_add_right _ _
    | createTmp =>
      cases r with
      | error e => rw [h.error (by simp)]; omega
      | ok out => obtain ⟨-,rfl⟩ := h.createTmp; exact Nat.le_add_right _ _
    | dropTmp tmp => rcases h.dropTmp with rfl | ⟨rfl,-⟩ <;> exact Nat.le_add_right _ _
    | _ => exact absurd rfl hread

/-- The contract of a byte limit: over all attempts of a call no more than the limit is
written to temporary files, what is served is no longer than the limit, and a chunk that
does not fit ends the call as such: nothing of its attempt is published, no later source
is asked, and no other error takes its place. -/
theorem getLimited_contract (H : Sha256) (U : UrlCrate) (ds : Datastore) (artifact : Artifact)
    (limit : ℕ) (t : ThreadId) (w : World) :
    (∀ events w', (ds.getLimited H U artifact limit).run.Partly (Call.Does t) w events w' →
      w'.written t ≤ w.written t+limit) ∧
    (∀ events path w', (ds.getLimited H U artifact limit).run.Runs (Alone H t) w events (.ok path) w' →
      ∃ content, w'.fileAt path = some content ∧ content.length ≤ limit) ∧
    (∀ before e after, limit < offeredBy (before++[e]) →
      ((ds.getLimited H U artifact limit).run.Trace (before ++ e :: after) →
        (∀ x ∈ attempt before ++ after, x.publishes = false) ∧ ∀ x ∈ after, x.contacts = false) ∧
      ∀ r, (ds.getLimited H U artifact limit).run.Finishes (before ++ e :: after) r →
        r = .error .transferLimit) := by
  have hends : (ds.getLimited H U artifact limit).run.Holds (metering limit) (Metered.End limit) [] :=
    getLimited_ends limit
  have hstart : Metered limit [] := ⟨by simp [appendedBy],.of_le (by simp [offeredBy])⟩
  refine ⟨fun events w' hp => ?_,fun events path w' hr => getLimited_serves hr,?_⟩
  · have hcost := hp.cost_le (fun w => w.written t) Event.appended fun c s r s' hs =>
      written_le hs
    have hlog : Metered limit events := by simpa using hends.log_of_trace hstart hp.trace
    have := hlog.appended
    unfold appendedBy at this
    omega
  · intro before e after hlt
    refine ⟨fun ht => ?_,fun r hf => ?_⟩
    · have hlog : Metered limit (before ++ e :: after) := by simpa using hends.log_of_trace hstart ht
      exact hlog.stops before e after rfl hlt
    · have hend : Metered.End limit r (before ++ e :: after) := by simpa using hends.log_of_finishes hf
      cases hend with
      | beyond => rfl
      | within hopen =>
        have hle := offeredBy_le_append (before++[e]) after
        rw [List.append_assoc,List.singleton_append] at hle
        have := hopen.offered
        omega

end calls
end StarfieldDatastore
