import StarfieldDatastore.Layout

/-! The hashing temporary file a transfer is written to. It shows the first bytes to the
artifact's check before letting the rest of the body in, and charges a byte budget. -/
namespace StarfieldDatastore
open Interleaving

def prefixBytes : ℕ := 8*1024

/-- `hashed` is what the incremental hasher has been fed, `budget` the shared cell of
bytes that may still be offered. -/
structure Receiver where
  tmp : ℕ
  check : ContentCheck
  hashed : Bytes
  bytes : ℕ
  head : Bytes
  prefixChecked : Bool
  rejected : Option CheckFailure
  budget : Option ℕ
  limitExceeded : Bool

namespace Receiver

def new (tmp : ℕ) (check : ContentCheck) (budget : Option ℕ) : Receiver :=
  ⟨tmp,check,[],0,[],false,none,budget,false⟩

def rejection (failure : CheckFailure) : IoError := ⟨s!"{failure.check}: {failure.got}"⟩

def checkPrefix (H : Sha256) (w : Receiver) : Receiver :=
  { w with
    prefixChecked := true
    rejected := match w.check.checkPrefix H w.head with
      | .ok () => w.rejected
      | .error failure => some failure }

/-- Charges the budget before anything is written; `none` when the chunk does not fit. -/
def charge (w : Receiver) (buf : Bytes) : Option Receiver :=
  match w.budget with
  | none => some w
  | some remaining =>
    if w.limitExceeded || remaining < buf.length then none
    else some { w with budget := some (remaining-buf.length) }

/-- Collects the first bytes of the body and checks them once the window is full. -/
def showHead (H : Sha256) (w : Receiver) (buf : Bytes) : Receiver :=
  if w.prefixChecked then w
  else
    let take := min (prefixBytes-w.head.length) buf.length
    let w := { w with head := w.head ++ buf.take take }
    if w.head.length = prefixBytes then w.checkPrefix H else w

def write (H : Sha256) (w : Receiver) (buf : Bytes) : Prog (Except IoError Unit × Receiver) :=
  match w.charge buf with
  | none =>
    return (.error ⟨"fill byte reservation exhausted"⟩,{ w with limitExceeded := true })
  | some w =>
    match w.rejected with
    | some failure => return (.error (rejection failure),w)
    | none =>
      match (w.showHead H buf).rejected with
      | some failure => return (.error (rejection failure),w.showHead H buf)
      | none => do
        let w := w.showHead H buf
        match ← fs (.appendTmp w.tmp buf) with
        | .error e => return (.error e,w)
        | .ok () =>
          return (.ok (),{ w with hashed := w.hashed ++ buf, bytes := w.bytes+buf.length })

section fields
variable {H : Sha256} {rcv : Receiver}

@[simp] theorem checkPrefix_tmp : (rcv.checkPrefix H).tmp = rcv.tmp := rfl
@[simp] theorem checkPrefix_hashed : (rcv.checkPrefix H).hashed = rcv.hashed := rfl
@[simp] theorem checkPrefix_bytes : (rcv.checkPrefix H).bytes = rcv.bytes := rfl
@[simp] theorem checkPrefix_budget : (rcv.checkPrefix H).budget = rcv.budget := rfl

/-- Showing the first bytes to the check does not touch what has been let in. -/
theorem showHead_same (H : Sha256) (rcv : Receiver) (buf : Bytes) :
    (rcv.showHead H buf).tmp = rcv.tmp ∧ (rcv.showHead H buf).hashed = rcv.hashed ∧
      (rcv.showHead H buf).bytes = rcv.bytes ∧ (rcv.showHead H buf).budget = rcv.budget := by
  simp only [showHead]
  split
  · simp
  · split <;> simp

end fields

/-- `write_all`, which does not call `write` for an empty chunk. -/
def writeAll (H : Sha256) (w : Receiver) (buf : Bytes) : Prog (Except IoError Unit × Receiver) :=
  if buf = [] then return (.ok (),w) else w.write H buf

/-- A body shorter than the prefix window is checked at the end. -/
def finishPrefix (H : Sha256) (w : Receiver) : Except CheckFailure Unit :=
  if w.prefixChecked then .ok () else w.check.checkPrefix H w.head

def finish (H : Sha256) (w : Receiver) : String × ℕ := (H.hex w.hashed,w.bytes)

end Receiver

/-- What a producer does with the sink it is given, and its own result. -/
abbrev Producer (α : Type) := Receiver → Prog (Except DatastoreError α × Receiver)

/-- Copies what `read` brings into the sink until it reports the end, reading at most
`reads` times. A failed read or write ends the copy with that error. -/
def copy (H : Sha256) (read : Prog (Except DatastoreError (Option Bytes))) :
    ℕ → Producer Unit
  | 0, w => return (.ok (),w)
  | reads+1, w => do
    match ← read with
    | .error e => return (.error e,w)
    | .ok none => return (.ok (),w)
    | .ok (some chunk) =>
      match ← w.writeAll H chunk with
      | (.error e,w) => return (.error (.io e),w)
      | (.ok (),w) => copy H read reads w

/-- One read of a stream that ends with an empty chunk. -/
def chunkOf (r : Except IoError Bytes) : Except DatastoreError (Option Bytes) :=
  match r with
  | .error e => .error (.io e)
  | .ok [] => .ok none
  | .ok chunk => .ok (some chunk)

def readBody : Prog (Except DatastoreError (Option Bytes)) :=
  net .readBody >>= fun r => .done (chunkOf r)

def readImport : Prog (Except DatastoreError (Option Bytes)) :=
  fs .readImport >>= fun r => .done (chunkOf r)

def readS3 : Prog (Except DatastoreError (Option Bytes)) :=
  net .s3Read >>= fun
    | .error () => .done (.error (.mirror "S3 body stream failed"))
    | .ok chunk => .done (.ok chunk)

end StarfieldDatastore
