import StarfieldDatastore.Streaming
import StarfieldDatastore.Publication

/-! One peer for each body that is received: what it sends is a function of the requests it
has had, and what becomes of it depends on nothing that went before. -/
namespace StarfieldDatastore
open Interleaving

/-- Anything that answers requests. It knows what has been said so far, the latest first. -/
abbrev Peer := List Event → (c : NetCall) → c.Ret

def Peer.ask (peer : Peer) (log : List Event) : (c : Call) → c.Ret
  | .net c => peer log c
  | c => World.fresh.answer c

/-- The peer of the current attempt, the conversation with it, and the peers that are left. -/
structure Scene where
  peer : Peer
  log : List Event
  left : List Peer

def Call.onNet : Call → Bool
  | .net _ => true
  | _ => false

def Call.onDisk : Call → Bool
  | .fs .createTmp => false
  | .fs _ => true
  | _ => false

/-- A filesystem without faults. Every attempt begins with its temporary file and faces the
next peer. -/
inductive Call.Faces (t : ThreadId) : (c : Call) → World × Scene → c.Ret → World × Scene → Prop
  | disk {c w r w' scene} (h : c.onDisk = true) (step : c.Works t w r w') : Faces t c (w,scene) r (w',scene)
  | begun {w r w' peer log next left} (step : (Call.fs .createTmp).Works t w r w') :
      Faces t (.fs .createTmp) (w,⟨peer,log,next :: left⟩) r (w',⟨next,[],left⟩)
  | replied {c w peer log left} :
      Faces t (.net c) (w,⟨peer,log,left⟩) (peer log c) (w,⟨peer,⟨.net c,peer log c⟩ :: log,left⟩)

/-- What has come from a peer, and how it ended. -/
structure Heard (α : Type) where
  body : Bytes
  result : Except DatastoreError (Option α)

/-- The chunks that so many reads bring, and how they end. -/
def Peer.pull (peer : Peer) (read : Prog (Except DatastoreError (Option Bytes))) :
    ℕ → List Event → List Bytes × Except DatastoreError Unit
  | 0, _ => ([],.ok ())
  | reads+1, log =>
    match read.converse peer.ask log with
    | (.error e,_) => ([],.error e)
    | (.ok none,_) => ([],.ok ())
    | (.ok (some chunk),log) => (chunk :: (peer.pull read reads log).1,(peer.pull read reads log).2)

/-- The body that `read` brings from a peer after what has been said. -/
def Peer.stream {α : Type} (peer : Peer) (read : Prog (Except DatastoreError (Option Bytes))) (reads : ℕ)
    (log : List Event) (info : α) : Heard α :=
  ⟨(peer.pull read reads log).1.flatten,(peer.pull read reads log).2.map fun _ => some info⟩

/-- What a source sends. -/
def Fetcher.hear (U : UrlCrate) (f : Fetcher) (source : Source) (peer : Peer) : Heard Download :=
  match (f.navigate U source).run.converse peer.ask [] with
  | (.error e,_) => ⟨[],.error e⟩
  | (.ok none,_) => ⟨[],.ok none⟩
  | (.ok (some (response,download)),log) => peer.stream readBody response.reads log download

/-- What a mirror sends. -/
def Mirror.hear (U : UrlCrate) (key : ArtifactKey) (peer : Peer) : Mirror → Heard Unit
  | .http base =>
    let heard := Fetcher.hear U ⟨none⟩ (.new ((Mirror.http base).location key)) peer
    ⟨heard.body,(heard.result.map fun found => found.map fun _ => ()).mapError Mirror.refused⟩
  | .s3 bucket pre =>
    match (net (.s3Get (key.mirrorPath pre))).converse peer.ask [] with
    | (.error code,_) => ⟨[],.error (serviceError bucket pre key "GET" code)⟩
    | (.ok none,_) => ⟨[],.ok none⟩
    | (.ok (some reads),log) => peer.stream readS3 reads log ()

section peers
variable {H : Sha256} {U : UrlCrate} {t : ThreadId} {w w₀ : World} {peer : Peer} {log : List Event} {left : List Peer}
  {α : Type} {check : ContentCheck} {tmp : ℕ}

theorem faces_disk {p : Prog α} {Q : α → World → Prop} {scene : Scene}
    (hp : p.Only fun c => c.onDisk = true) (h : p.Total (Call.Works t) Q w) :
    p.Total (Call.Faces t) (fun a u => Q a u.1 ∧ u.2 = scene) (w,scene) := by
  refine Program.Total.beside hp (fun c hc s r u => ?_) h
  constructor
  · intro hstep
    cases hstep with
    | disk _ step => exact ⟨step,rfl⟩
    | _ => cases hc
  · rintro ⟨hstep,rfl⟩
    exact .disk hc hstep

theorem faces_beside : Beside t (fun c => c.onDisk = true) (Call.Faces t) :=
  fun _ _ _ _ _ hp h => faces_disk hp (total_worked h)

/-- A program that only asks the peer. -/
theorem faces_net {p : Prog α} (hp : p.Only fun c => c.onNet = true) :
    p.Total (Call.Faces t) (fun a u => a = (p.converse peer.ask log).1 ∧
      u = (w,⟨peer,(p.converse peer.ask log).2,left⟩)) (w,⟨peer,log,left⟩) := by
  refine Program.Total.of_converse (fun log => ((w,⟨peer,log,left⟩) : World × Scene)) hp ?_ ?_ log
  · intro c hc log
    cases c with
    | net c => exact .replied
    | fs c => cases hc
    | cache c => cases hc
  · intro c hc log r u hu
    cases hu with
    | disk h _ => cases c <;> simp_all [Call.onNet,Call.onDisk]
    | begun _ => cases hc
    | replied => exact ⟨rfl,rfl⟩

theorem faces_begun {next : Peer} : (fs .createTmp).Total (Call.Faces t) (fun out u => (∃ tmp, out = .ok tmp ∧
    Receiver.Filling t w tmp (.new tmp check none) u.1) ∧ u.2 = ⟨next,[],left⟩) (w,⟨peer,log,next :: left⟩) := by
  have h := total_worked (createTmp_total (t := t) (w := w) check)
  obtain ⟨⟨r,u,hu⟩,hall⟩ := h
  refine ⟨⟨r,(u,⟨next,[],left⟩),.begun hu⟩,fun r u hu => ?_⟩
  cases hu with
  | disk h _ => cases h
  | begun step => exact ⟨hall _ _ step,rfl⟩

/-- The chunks come as they are pulled. -/
theorem pull_stream {read : Prog (Except DatastoreError (Option Bytes))} (hread : read.Only fun c => c.onNet = true)
    (reads : ℕ) : ∀ log, Stream (Call.Faces t) (fun scene => scene.left = left) read reads ⟨peer,log,left⟩
      (peer.pull read reads log).1 (peer.pull read reads log).2 := by
  induction reads with
  | zero => exact fun log => .spent rfl
  | succ reads ih =>
    intro log
    have hreads : ∀ out log', read.converse peer.ask log = (out,log') →
        ReadsAs (Call.Faces t) read ⟨peer,log,left⟩ out ⟨peer,log',left⟩ := by
      intro out log' h w
      have hnet : read.Total (Call.Faces t) (fun a u => a = (read.converse peer.ask log).1 ∧
          u = (w,⟨peer,(read.converse peer.ask log).2,left⟩)) (w,⟨peer,log,left⟩) := faces_net hread
      rwa [h] at hnet
    rw [Peer.pull]
    split
    · rename_i e log' h
      exact .broken (hreads _ _ h) rfl
    · rename_i log' h
      exact .ended (hreads _ _ h) rfl
    · rename_i chunk log' h
      exact .chunk (hreads _ _ h) rfl (ih log')

theorem Poured.map {β : Type} {body : Bytes} {r : Except DatastoreError α} {out : Except DatastoreError α × Receiver}
    (h : Poured H t w₀ check tmp body r out w) (f : α → β) :
    Poured H t w₀ check tmp body (r.map f) (out.1.map f,out.2) w := by
  cases h with
  | all seen filling hashed => exact .all seen filling hashed
  | refused refused untouched file => exact .refused refused untouched file

/-- The errors of the HTTP mirror are its own, but those of the sink are passed on. -/
theorem Poured.ofMirror {body : Bytes} {r : Except DatastoreError α} {out : Except DatastoreError α × Receiver}
    (h : Poured H t w₀ check tmp body r out w) :
    Poured H t w₀ check tmp body (r.mapError Mirror.refused) (out.1.mapError Mirror.refused,out.2) w := by
  cases h with
  | all seen filling hashed => exact .all seen filling hashed
  | refused refused untouched file => exact .refused refused untouched file

theorem stream_poured {read : Prog (Except DatastoreError (Option Bytes))} {reads : ℕ} {info : α} {u : World}
    (hread : read.Only fun c => c.onNet = true) (hu : Receiver.Filling t w tmp (.new tmp check none) u) :
    (do
      match ← copy H read reads (.new tmp check none) with
      | (.error e,rcv) => return (.error e,rcv)
      | (.ok (),rcv) => return (.ok (some info),rcv) : Prog (Except DatastoreError (Option α) × Receiver)).Total
        (Call.Faces t) (fun out v => Poured H t w check tmp (peer.stream read reads log info).body
          (peer.stream read reads log info).result out v.1 ∧ v.2.left = left) (u,⟨peer,log,left⟩) := by
  refine Program.Total.bind ((copy_poured faces_beside (fun _ _ => rfl) (pull_stream hread reads log)
    Receiver.seen_new hu).mono ?_)
  rintro ⟨out,rcv⟩ ⟨v,scene⟩ ⟨hv,hscene⟩
  have hmap := hv.map fun _ => some info
  cases out with
  | error e => exact ⟨hmap,hscene⟩
  | ok copied => exact ⟨hmap,hscene⟩

theorem request_poured {f : Fetcher} {source : Source} {u : World}
    (hu : Receiver.Filling t w tmp (.new tmp check none) u) :
    (f.request H U source (.new tmp check none)).Total (Call.Faces t) (fun out v =>
      Poured H t w check tmp (f.hear U source peer).body (f.hear U source peer).result out v.1 ∧
        v.2.left = left) (u,⟨peer,[],left⟩) := by
  refine Program.Total.bind ((faces_net (navigate_only (fun _ _ => rfl) rfl)).mono ?_)
  rintro out v ⟨rfl,rfl⟩
  unfold Fetcher.hear
  generalize (f.navigate U source).run.converse peer.ask [] = said
  obtain ⟨out,log⟩ := said
  match out with
  | .error e => exact ⟨.all Receiver.seen_new hu rfl,rfl⟩
  | .ok none => exact ⟨.all Receiver.seen_new hu rfl,rfl⟩
  | .ok (some (response,download)) => exact stream_poured ⟨rfl,fun _ => trivial⟩ hu

theorem fetch_poured {mirror : Mirror} {key : ArtifactKey} {u : World}
    (hu : Receiver.Filling t w tmp (.new tmp check none) u) :
    (mirror.fetch H U key (.new tmp check none)).Total (Call.Faces t) (fun out v =>
      Poured H t w check tmp (mirror.hear U key peer).body (mirror.hear U key peer).result out v.1 ∧
        v.2.left = left) (u,⟨peer,[],left⟩) := by
  cases mirror with
  | http base =>
    refine Program.Total.bind ((request_poured hu).mono ?_)
    rintro ⟨out,rcv⟩ ⟨v,scene⟩ ⟨hv,hscene⟩
    have hmap := (hv.map fun found => found.map fun _ => ()).ofMirror
    cases out with
    | error e => exact ⟨hmap,hscene⟩
    | ok found => exact ⟨hmap,hscene⟩
  | s3 bucket pre =>
    have hget : (net (.s3Get (key.mirrorPath pre))).Only fun c => c.onNet = true := .perform rfl
    refine Program.Total.bind ((faces_net hget).mono ?_)
    rintro out v ⟨rfl,rfl⟩
    unfold Mirror.hear
    dsimp only
    generalize (net (.s3Get (key.mirrorPath pre))).converse peer.ask [] = said
    obtain ⟨out,log⟩ := said
    match out with
    | .error code => exact ⟨.all Receiver.seen_new hu rfl,rfl⟩
    | .ok none => exact ⟨.all Receiver.seen_new hu rfl,rfl⟩
    | .ok (some reads) =>
      have hread : readS3.Only fun c => c.onNet = true := ⟨rfl,fun r => by cases r <;> trivial⟩
      exact stream_poured hread hu

end peers
end StarfieldDatastore
