import StarfieldDatastore.Deliver
import StarfieldDatastore.Budget

/-! A body on its way into the cache, from wherever it comes: the chunks that are read are
poured into the sink until they end, or the stream breaks, or the first bytes are refused. -/
namespace StarfieldDatastore
open Interleaving

section stream
variable {X : Type} {t : ThreadId} {P : Call → Prop} {I : X → Prop} {α : Type}
  {step : (c : Call) → World × X → c.Ret → World × X → Prop}

/-- A disk that works, with something beside it that the calls in `P` do not touch. -/
def Beside (t : ThreadId) (P : Call → Prop) (step : (c : Call) → World × X → c.Ret → World × X → Prop) : Prop :=
  ∀ (α : Type) (p : Prog α) (Q : α → World → Prop) (w : World) (x : X), p.Only P →
    p.Total (Call.Succeeds t) Q w → p.Total step (fun a u => Q a u.1 ∧ u.2 = x) (w,x)

/-- One read that brings `out` and touches only what is beside the disk. -/
def ReadsAs (step : (c : Call) → World × X → c.Ret → World × X → Prop)
    (read : Prog (Except DatastoreError (Option Bytes))) (x : X) (out : Except DatastoreError (Option Bytes))
    (x' : X) : Prop :=
  ∀ w, read.Total step (fun o u => o = out ∧ u = (w,x')) (w,x)

/-- The chunks that so many reads bring, and how they end. -/
inductive Stream (step : (c : Call) → World × X → c.Ret → World × X → Prop) (I : X → Prop)
    (read : Prog (Except DatastoreError (Option Bytes))) :
    ℕ → X → List Bytes → Except DatastoreError Unit → Prop
  | spent {x} (hx : I x) : Stream step I read 0 x [] (.ok ())
  | ended {reads x x'} (h : ReadsAs step read x (.ok none) x') (hx : I x') :
      Stream step I read (reads+1) x [] (.ok ())
  | broken {reads x e x'} (h : ReadsAs step read x (.error e) x') (hx : I x') :
      Stream step I read (reads+1) x [] (.error e)
  | chunk {reads x chunk x' rest r} (h : ReadsAs step read x (.ok (some chunk)) x') (hx : I x')
      (hrest : Stream step I read reads x' rest r) :
      Stream step I read (reads+1) x (chunk::rest) r

/-- What a producer has made of a body: all of it is in and the result is as it should be, or
the first bytes were refused. -/
inductive Poured (H : Sha256) (t : ThreadId) (w₀ : World) (check : ContentCheck) (tmp : ℕ) (body : Bytes)
    (r : Except DatastoreError α) : Except DatastoreError α × Receiver → World → Prop
  | all {rcv : Receiver} {w : World} (seen : Receiver.Seen H check rcv)
      (filling : Receiver.Filling t w₀ tmp rcv w) (hashed : rcv.hashed = body) :
      Poured H t w₀ check tmp body r (r,rcv) w
  | refused {e : IoError} {rcv : Receiver} {w : World} {content : Bytes}
      (refused : Receiver.Refused H check body rcv) (untouched : Untouched w₀ w)
      (file : w.tmp.lookup tmp = some ⟨t,content⟩) :
      Poured H t w₀ check tmp body r (.error (.io e),rcv) w

variable {H : Sha256} {w₀ w : World} {check : ContentCheck} {tmp : ℕ}

theorem copy_poured (hs : Beside t P step) (happend : ∀ tmp buf, P (.fs (.appendTmp tmp buf)))
    {read : Prog (Except DatastoreError (Option Bytes))} {reads : ℕ} {x : X} {chunks : List Bytes}
    {r : Except DatastoreError Unit} (h : Stream step I read reads x chunks r) :
    ∀ {rcv : Receiver} {w : World}, Receiver.Seen H check rcv → Receiver.Filling t w₀ tmp rcv w →
      (copy H read reads rcv).Total step (fun out u =>
        Poured H t w₀ check tmp (rcv.hashed++chunks.flatten) r out u.1 ∧ I u.2) (w,x) := by
  induction h with
  | spent hx => exact fun hseen hw => ⟨.all hseen hw (by simp),hx⟩
  | ended h hx =>
    intro rcv w hseen hw
    refine Program.Total.bind ((h w).mono ?_)
    rintro out u ⟨rfl,rfl⟩
    exact ⟨.all hseen hw (by simp),hx⟩
  | broken h hx =>
    intro rcv w hseen hw
    refine Program.Total.bind ((h w).mono ?_)
    rintro out u ⟨rfl,rfl⟩
    exact ⟨.all hseen hw (by simp),hx⟩
  | @chunk reads x chunk x' rest r h hx _ ih =>
    intro rcv w hseen hw
    refine Program.Total.bind ((h w).mono ?_)
    rintro out u ⟨rfl,rfl⟩
    have hwrite : (rcv.writeAll H chunk).Total (Call.Succeeds t)
        (Receiver.Offered H t w₀ check tmp (rcv.hashed++chunk) ()) w := by
      rw [Receiver.writeAll]
      split
      · rename_i hempty
        exact .all hseen hw (by rw [hempty,List.append_nil])
      · exact Receiver.write_total chunk hseen hw
    refine Program.Total.bind ((hs _ _ _ _ _ (writeAll_only happend _ _) hwrite).mono ?_)
    rintro ⟨out,rcv'⟩ ⟨v,x''⟩ ⟨hv,hx''⟩
    obtain rfl : x'' = x' := hx''
    cases hv with
    | all hseen' hfilling hhashed =>
      refine (ih hseen' hfilling).mono ?_
      rintro out u ⟨hu,hi⟩
      rw [hhashed] at hu
      exact ⟨by simpa using hu,hi⟩
    | refused hrefused huntouched hfile =>
      exact ⟨.refused (by simpa using hrefused.append rest.flatten) huntouched hfile,hx⟩

/-- What `receive` makes of a body that was poured: it is in its temporary file, or there is no
object, or the producer's error is passed on, or the early check has failed. -/
inductive Gained (H : Sha256) (t : ThreadId) (w₀ : World) (artifact : Artifact) (body : Bytes)
    (r : Except DatastoreError (Option α)) : Except DatastoreError (Option (Received α)) → World → Prop
  | whole {received : Received α} {u : World} (result : r = .ok (some received.info))
      (untouched : Untouched w₀ u) (file : u.tmp.lookup received.tmp = some ⟨t,body⟩)
      (digest : received.digest = H.hex body) (bytes : received.bytes = body.length) :
      Gained H t w₀ artifact body r (.ok (some received)) u
  | nothing {u : World} (result : r = .ok none) (untouched : Untouched w₀ u) :
      Gained H t w₀ artifact body r (.ok none) u
  | failed {e : DatastoreError} {u : World} (result : r = .error e) (untouched : Untouched w₀ u) :
      Gained H t w₀ artifact body r (.error e) u
  | refused {failure : CheckFailure} {u : World} (untouched : Untouched w₀ u)
      (failed : artifact.check.checkPrefix H (body.take prefixBytes) ≠ .ok ())
      (full : prefixBytes ≤ body.length ∨ ∃ info, r = .ok (some info)) :
      Gained H t w₀ artifact body r (.error (.contentRejected artifact.key failure)) u

variable {artifact : Artifact} {rcv : Receiver} {body : Bytes} {r : Except DatastoreError (Option α)}
  {out : Except DatastoreError (Option α)}

theorem dropped_total {β : Type} {a : β} {Q : β → World → Prop} (h : Q a { w with tmp := w.tmp.erase tmp }) :
    (do
      let _ ← fs (.dropTmp tmp)
      return a : Prog β).Total (Call.Succeeds t) Q w :=
  total_fs () { w with tmp := w.tmp.erase tmp } (fun _ => rfl) h

theorem Untouched.erase (h : Untouched w₀ w) (tmp : ℕ) : Untouched w₀ { w with tmp := w.tmp.erase tmp } :=
  ⟨h.blobs,h.index,h.dirs,h.locks⟩

/-- The end of `receive` once everything is in: a short body is checked now. -/
theorem Receiver.Seen.conclude_gained (h : Receiver.Seen H artifact.check rcv) (hw : Receiver.Filling t w₀ tmp rcv w)
    (hbody : rcv.hashed = body) : (rcv.conclude H tmp (rcv.verdict H artifact r)).Total (Call.Succeeds t)
      (fun out => Gained H t w₀ artifact body r out.1) w := by
  subst hbody
  match r with
  | .error e =>
    have hverdict : rcv.verdict (α := α) H artifact (.error e) = .error e := by
      unfold Receiver.verdict
      rw [if_neg (by simp [h.limit]),h.rejected]
      cases e <;> rfl
    rw [hverdict]
    exact dropped_total (.failed rfl (hw.untouched.erase tmp))
  | .ok none =>
    have hverdict : rcv.verdict (α := α) H artifact (.ok none) = .ok none := by
      unfold Receiver.verdict
      rw [if_neg (by simp [h.limit]),h.rejected]
    rw [hverdict]
    exact dropped_total (.nothing rfl (hw.untouched.erase tmp))
  | .ok (some info) =>
    have hverdict : rcv.verdict H artifact (.ok (some info)) =
        ((rcv.finishPrefix H).map fun _ => some info).mapError (.contentRejected artifact.key) := by
      unfold Receiver.verdict
      rw [if_neg (by simp [h.limit]),h.rejected]
      cases rcv.finishPrefix H <;> rfl
    rw [hverdict,h.finishPrefix_eq]
    cases hcheck : artifact.check.checkPrefix H (rcv.hashed.take prefixBytes) with
    | error failure => exact dropped_total (.refused (hw.untouched.erase tmp) (by simp [hcheck]) (.inr ⟨_,rfl⟩))
    | ok passed => exact .whole rfl hw.untouched hw.file rfl h.bytes

/-- The end of `receive` after a producer that has poured a body into the sink. -/
theorem Poured.conclude_gained (h : Poured H t w₀ artifact.check tmp body r (out,rcv) w) :
    (rcv.conclude H tmp (rcv.verdict H artifact out)).Total (Call.Succeeds t)
      (fun out => Gained H t w₀ artifact body r out.1) w := by
  cases h with
  | all hseen hfilling hhashed => exact hseen.conclude_gained hfilling hhashed
  | refused hrefused huntouched hfile =>
    rename_i e content
    obtain ⟨failure,hfailure⟩ := hrefused.rejected
    have hverdict : rcv.verdict (α := α) H artifact (.error (.io e)) =
        .error (.contentRejected artifact.key failure) := by
      unfold Receiver.verdict
      rw [if_neg (by simp [hrefused.limit]),hfailure]
    rw [hverdict]
    exact dropped_total (.refused (huntouched.erase tmp) hrefused.failed (.inl hrefused.full))

theorem conclude_drops (hdrop : ∀ tmp, P (.fs (.dropTmp tmp))) (tmp : ℕ) (rcv : Receiver)
    (r : Except DatastoreError (Option α)) : (rcv.conclude H tmp r).Only P := by
  unfold Receiver.conclude
  split
  · exact .bind (.perform (hdrop tmp)) fun _ => trivial
  · exact .bind (.perform (hdrop tmp)) fun _ => trivial
  · trivial

theorem receive_gained (hs : Beside t P step) (hdrop : ∀ tmp, P (.fs (.dropTmp tmp)))
    {producer : Producer (Option α)} {x x₁ : X}
    (hcreate : (fs .createTmp).Total step (fun out u => (∃ tmp, out = .ok tmp ∧
      Receiver.Filling t w tmp (.new tmp artifact.check none) u.1) ∧ u.2 = x₁) (w,x))
    (hproduce : ∀ tmp u, Receiver.Filling t w tmp (.new tmp artifact.check none) u →
      (producer (.new tmp artifact.check none)).Total step (fun out v =>
        Poured H t w artifact.check tmp body r out v.1 ∧ I v.2) (u,x₁)) :
    (receive H artifact none producer).Total step (fun out u =>
      Gained H t w artifact body r out.1 u.1 ∧ I u.2) (w,x) := by
  refine Program.Total.bind (hcreate.mono ?_)
  rintro out ⟨u,x₂⟩ ⟨⟨tmp,rfl,hu⟩,hx⟩
  obtain rfl : x₂ = x₁ := hx
  refine Program.Total.bind ((hproduce tmp u hu).mono ?_)
  rintro ⟨out,rcv⟩ ⟨v,x₃⟩ ⟨hv,hi⟩
  refine (hs _ _ _ _ _ (conclude_drops hdrop tmp rcv _) hv.conclude_gained).mono ?_
  rintro out u ⟨hu,rfl⟩
  exact ⟨hu,hi⟩

/-- An operation under a free lock. -/
theorem beside_withLock (hs : Beside t P step) (hlock : ∀ name, P (.fs (.lock name)))
    (hunlock : ∀ name, P (.fs (.unlock name))) {name : String} {body : Op α} {Q : Except DatastoreError α → World → Prop}
    {x : X} (hfree : w.locks name = none) (h : body.run.Total step (fun out u => u.1.locks name = some t ∧
      Q out (u.1.setLock name none)) (w.setLock name (some t),x)) :
    (withLock name body).run.Total step (fun out u => Q out u.1) (w,x) := by
  have htake : ∀ x, w.runFs t (.lock name) x = some (.ok (),w.setLock name (some t)) := by
    intro x
    simp only [World.runFs,hfree,if_true]
  have htaken : (io (.lock name)).run.Total (Call.Succeeds t) (fun out u => out = .ok () ∧
      u = w.setLock name (some t)) w := total_io_last () _ htake ⟨rfl,rfl⟩
  refine Program.Total.bind_run ((hs _ _ _ _ _ (io_only (hlock name)) htaken).mono ?_)
  rintro out ⟨u,y⟩ ⟨⟨rfl,rfl⟩,rfl⟩
  refine Program.Total.bind (h.mono ?_)
  rintro out ⟨u,y⟩ ⟨hheld,hQ⟩
  dsimp only at hheld hQ ⊢
  have hgive : ∀ x, u.runFs t (.unlock name) x = some (.ok (),u.setLock name none) := by
    intro x
    simp only [World.runFs,hheld,if_true]
  have hdone : (do
      let _ ← fs (.unlock name)
      return out : Prog _).Total (Call.Succeeds t) (fun out' v => out' = out ∧ v = u.setLock name none) u :=
    total_fs () _ hgive ⟨rfl,rfl⟩
  have hdisk : (do
      let _ ← fs (.unlock name)
      return out : Prog _).Only P := .bind (.perform (hunlock name)) fun _ => trivial
  refine (hs _ _ _ _ _ hdisk hdone).mono ?_
  rintro out' ⟨v,y⟩ ⟨⟨rfl,rfl⟩,-⟩
  exact hQ

end stream
end StarfieldDatastore
