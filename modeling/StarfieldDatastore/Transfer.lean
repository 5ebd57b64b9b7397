import StarfieldDatastore.Deliver
import StarfieldDatastore.ObjectCheck
import StarfieldDatastore.Budget
import StarfieldDatastore.Interleaving.Query

/-! A client that is sent an object by its mirror, and what the verification of the object
says about it. -/
namespace StarfieldDatastore
open Interleaving

def Call.isLocal : Call → Bool
  | .net _ => false
  | _ => true

/-- A mirror that sends a body in the given chunks to a client whose filesystem works.
Beside the world stands what is left to send once the response has begun. Before that the
mirror can redirect or refuse. -/
inductive Call.Transfers (t : ThreadId) (chunks : List Bytes) :
    (c : Call) → World × Option (List Bytes) → c.Ret → World × Option (List Bytes) → Prop
  | disk {c w r w' left} (h : c.isLocal = true) (step : c.Succeeds t w r w') :
      Transfers t chunks c (w,left) r (w',left)
  | clock {w left now} : Transfers t chunks (.net .systemNow) (w,left) now (w,left)
  | elsewhere {url credential w left r}
      (h : ∀ response, r = .ok response → 300 ≤ response.status ∧ response.status < 600) :
      Transfers t chunks (.net (.send url credential)) (w,left) r (w,left)
  | begun {url credential w response} (status : 200 ≤ response.status ∧ response.status < 300)
      (reads : chunks.length < response.reads) :
      Transfers t chunks (.net (.send url credential)) (w,none) (.ok response) (w,some chunks)
  | read {w chunk rest} : Transfers t chunks (.net .readBody) (w,some (chunk :: rest)) (.ok chunk) (w,some rest)
  | ended {w} : Transfers t chunks (.net .readBody) (w,some []) (.ok []) (w,some [])
  | s3Elsewhere {path w left r} (h : ∀ reads, r ≠ .ok (some reads)) :
      Transfers t chunks (.net (.s3Get path)) (w,left) r (w,left)
  | s3Begun {path w reads} (reads_lt : chunks.length < reads) :
      Transfers t chunks (.net (.s3Get path)) (w,none) (.ok (some reads)) (w,some chunks)
  | s3Read {w chunk rest} :
      Transfers t chunks (.net .s3Read) (w,some (chunk :: rest)) (.ok (some chunk)) (w,some rest)
  | s3Ended {w} : Transfers t chunks (.net .s3Read) (w,some []) (.ok none) (w,some [])

/-- A read that brings the chunks one by one. -/
def Brings (t : ThreadId) (chunks : List Bytes) (read : Prog (Except DatastoreError (Option Bytes))) : Prop :=
  ∀ w left, [] ∉ left → read.Total (Call.Transfers t chunks) (fun out u => out = .ok left.head? ∧
    u = (w,some left.tail)) (w,some left)

section transfer
variable {H : Sha256} {U : UrlCrate} {t : ThreadId} {w₀ w : World} {artifact : Artifact} {chunks : List Bytes}
  {α : Type} {rcv : Receiver} {tmp : ℕ}

/-- What works on the disk works while a body is being sent. -/
theorem total_disk {p : Prog α} {Q : α → World → Prop} {left : Option (List Bytes)}
    (hp : p.Only fun c => c.isLocal = true) (h : p.Total (Call.Succeeds t) Q w) :
    p.Total (Call.Transfers t chunks) (fun a u => Q a u.1 ∧ u.2 = left) (w,left) := by
  refine Program.Total.beside hp (fun c hc s r u => ?_) h
  constructor
  · intro hstep
    cases hstep with
    | disk _ step => exact ⟨step,rfl⟩
    | _ => cases hc
  · rintro ⟨hstep,rfl⟩
    exact .disk hc hstep

theorem readBody_brings : Brings t chunks readBody := by
  intro w left hne
  cases left with
  | nil =>
    refine ⟨⟨_,_,.ended⟩,fun r u hu => ?_⟩
    cases hu with
    | disk h _ => cases h
    | ended => exact ⟨rfl,rfl⟩
  | cons chunk rest =>
    refine ⟨⟨_,_,.read⟩,fun r u hu => ?_⟩
    cases hu with
    | disk h _ => cases h
    | read =>
      refine ⟨?_,rfl⟩
      cases chunk with
      | nil => exact absurd (List.mem_cons_self ..) hne
      | cons b chunk => rfl

theorem readS3_brings : Brings t chunks readS3 := by
  intro w left hne
  cases left with
  | nil =>
    refine ⟨⟨_,_,.s3Ended⟩,fun r u hu => ?_⟩
    cases hu with
    | disk h _ => cases h
    | s3Ended => exact ⟨rfl,rfl⟩
  | cons chunk rest =>
    refine ⟨⟨_,_,.s3Read⟩,fun r u hu => ?_⟩
    cases hu with
    | disk h _ => cases h
    | s3Read => exact ⟨rfl,rfl⟩

/-- What a producer has made of a body that is on its way: nothing has been sent, or the
chunks were offered to the sink. -/
def Handed (H : Sha256) (t : ThreadId) (w₀ : World) (check : ContentCheck) (tmp : ℕ) (body : Bytes) (a : α)
    (out : Except DatastoreError α × Receiver) (u : World × Option (List Bytes)) : Prop :=
  u.2 ≠ none ∧ Receiver.Offered H t w₀ check tmp body a out u.1

open Receiver in
theorem copy_total {read : Prog (Except DatastoreError (Option Bytes))} (hread : Brings t chunks read)
    (reads : ℕ) : ∀ {left : List Bytes} {rcv : Receiver} {w : World}, [] ∉ left → left.length < reads →
      Seen H artifact.check rcv → Receiver.Filling t w₀ tmp rcv w → (copy H read reads rcv).Total (Call.Transfers t chunks)
        (Handed H t w₀ artifact.check tmp (rcv.hashed++left.flatten) ()) (w,some left) := by
  induction reads with
  | zero => exact fun _ hlen => absurd hlen (by omega)
  | succ reads ih =>
    intro left rcv w hne hlen h hw
    refine Program.Total.bind ((hread w left hne).mono ?_)
    rintro out u ⟨rfl,rfl⟩
    cases left with
    | nil => exact ⟨by simp,.all h hw (by simp)⟩
    | cons chunk rest =>
      have hchunk : chunk ≠ [] := fun he => hne (he ▸ List.mem_cons_self ..)
      have hrest : [] ∉ rest := fun hmem => hne (List.mem_cons_of_mem _ hmem)
      have hwrite : (rcv.writeAll H chunk).Total (Call.Succeeds t)
          (Offered H t w₀ artifact.check tmp (rcv.hashed++chunk) ()) w := by
        rw [Receiver.writeAll,if_neg hchunk]
        exact write_total chunk h hw
      refine Program.Total.bind ((total_disk (writeAll_only (fun _ _ => rfl) _ _) hwrite).mono ?_)
      rintro ⟨r,rcv'⟩ ⟨v,left⟩ ⟨hv,hleft⟩
      obtain rfl : left = some rest := hleft
      cases hv with
      | all hseen hfilling hhashed =>
        refine (ih hrest (by simpa using hlen) hseen hfilling).mono ?_
        rintro out u ⟨hsome,hu⟩
        rw [hhashed] at hu
        exact ⟨hsome,by simpa using hu⟩
      | refused hrefused huntouched hfile =>
        exact ⟨by simp,.refused (by simpa using hrefused.append rest.flatten) huntouched hfile⟩

/-- Following redirects ends in an error, in a definite 404 or at the response with the body. -/
def Navigated (chunks : List Bytes) (w : World) (out : Except DatastoreError (Option (Response × Download)))
    (u : World × Option (List Bytes)) : Prop :=
  u.1 = w ∧ ((∀ found, out ≠ .ok (some found)) ∧ u.2 = none ∨
    ∃ found, out = .ok (some found) ∧ u.2 = some chunks ∧ chunks.length < found.1.reads)

theorem Navigated.error (e : DatastoreError) : Navigated chunks w (.error e) (w,none) :=
  ⟨rfl,.inl ⟨fun _ h => (by cases h),rfl⟩⟩

theorem apply_total (credential : Option Credential) : (Fetcher.apply credential).Total
    (Call.Transfers t chunks) (fun _ u => u = (w,none)) (w,none) := by
  unfold Fetcher.apply
  split
  · refine ⟨⟨0,_,.clock⟩,fun r u hu => ?_⟩
    cases hu with
    | disk h _ => cases h
    | clock => rfl
  · rfl

variable {f : Fetcher} {source : Source}

theorem hops_total (originHost : String) (origin : Option Credential) (left : ℕ) :
    ∀ url identity, (f.hops U source originHost origin left url identity).run.Total
      (Call.Transfers t chunks) (Navigated chunks w) (w,none) := by
  induction left with
  | zero => exact fun _ _ => .error _
  | succ left ih =>
    intro url identity
    refine Program.Total.bind_run ?_
    cases hostOf U url with
    | error e => exact .error e
    | ok host =>
      refine Program.Total.bind_run ?_
      cases f.credentialAt source originHost origin (maxHops-(left+1)) host with
      | error e => exact .error e
      | ok credential =>
        obtain ⟨credential,credentialHost⟩ := credential
        refine Program.Total.bind_run (Program.Total.lift ((apply_total credential).mono ?_))
        rintro looksExpired u rfl
        refine Program.Total.bind_run (Program.Total.lift ⟨⟨.error (),_,.elsewhere fun _ h => (by cases h)⟩,?_⟩)
        intro r u hu
        cases hu with
        | disk h _ => cases h
        | elsewhere h =>
          cases r with
          | error e => exact .error _
          | ok response =>
            simp only [Program.Total]
            split
            · split
              · exact .error _
              · split
                · exact .error _
                · refine Program.Total.bind_run ?_
                  cases validateHop U url _ with
                  | error e => exact .error e
                  | ok target => exact ih target _
            · split
              · split <;> exact .error _
              · split
                · exact ⟨rfl,.inl ⟨fun _ h => (by cases h),rfl⟩⟩
                · rename_i hredirect hrefused hmissing
                  obtain ⟨hlow,hhigh⟩ := h response rfl
                  rw [if_pos]
                  · exact .error _
                  · simp only [Bool.and_eq_true,decide_eq_true_eq] at hredirect ⊢
                    omega
        | begun status reads =>
          rename_i response
          obtain ⟨hlow,hhigh⟩ := status
          simp only [Program.Total]
          rw [if_neg (by simp only [Bool.and_eq_true,decide_eq_true_eq]; omega),
            if_neg (by simp only [Bool.or_eq_true,decide_eq_true_eq]; omega),if_neg (by omega),
            if_neg (by simp only [Bool.and_eq_true,decide_eq_true_eq]; omega)]
          exact ⟨rfl,.inr ⟨_,rfl,rfl,reads⟩⟩

theorem navigate_total : (f.navigate U source).run.Total (Call.Transfers t chunks) (Navigated chunks w) (w,none) := by
  refine Program.Total.bind_run ?_
  cases parseSourceUrl U source.url with
  | error e => exact .error e
  | ok url =>
    refine Program.Total.bind_run ?_
    cases hostOf U url with
    | error e => exact .error e
    | ok originHost =>
      refine Program.Total.bind_run ?_
      cases f.lookup originHost with
      | error e => exact .error e
      | ok origin => exact hops_total originHost origin maxHops url none

/-- The end of a transfer: the response with the body has not been sent, or its chunks have
been offered to the sink. -/
def Ended (H : Sha256) (t : ThreadId) (w₀ : World) (check : ContentCheck) (tmp : ℕ) (body : Bytes)
    (out : Except DatastoreError (Option α) × Receiver) (u : World × Option (List Bytes)) : Prop :=
  (u.2 = none ∧ ∀ found, out.1 ≠ .ok (some found)) ∨ ∃ found, Handed H t w₀ check tmp body (some found) out u

open Receiver in
/-- A copy that succeeds is a transfer that has found something. -/
theorem ended_of_copy {read : Prog (Except DatastoreError (Option Bytes))} (hread : Brings t chunks read)
    {reads : ℕ} (hne : [] ∉ chunks) (hreads : chunks.length < reads) (h : Seen H artifact.check rcv)
    (hw : Receiver.Filling t w₀ tmp rcv w) (found : α) :
    ((copy H read reads rcv) >>= fun out => match out with
      | (.error e,rcv) => .done (.error e,rcv)
      | (.ok (),rcv) => .done (.ok (some found),rcv)).Total (Call.Transfers t chunks)
        (Ended H t w₀ artifact.check tmp (rcv.hashed++chunks.flatten)) (w,some chunks) := by
  refine Program.Total.bind ((copy_total hread reads hne hreads h hw).mono ?_)
  rintro ⟨r,rcv'⟩ ⟨u,left⟩ ⟨hleft,hu⟩
  cases hu with
  | all hseen hfilling hhashed => exact .inr ⟨found,hleft,.all hseen hfilling hhashed⟩
  | refused hrefused huntouched hfile => exact .inr ⟨found,hleft,.refused hrefused huntouched hfile⟩

open Receiver in
theorem fetch_total (mirror : Mirror) (key : ArtifactKey) (hne : [] ∉ chunks) (h : Seen H artifact.check rcv)
    (hw : Receiver.Filling t w₀ tmp rcv w) : (mirror.fetch H U key rcv).Total (Call.Transfers t chunks)
      (Ended H t w₀ artifact.check tmp (rcv.hashed++chunks.flatten)) (w,none) := by
  cases mirror with
  | http base =>
    refine Program.Total.bind (Program.Total.bind (navigate_total.mono ?_))
    rintro out ⟨v,left⟩ ⟨hv,hout⟩
    obtain rfl : v = w := hv
    rcases hout with ⟨hnone,hleft⟩ | ⟨⟨response,download⟩,rfl,hleft,hreads⟩
    · cases out with
      | error e => exact .inl ⟨hleft,fun _ h => (by cases h)⟩
      | ok found =>
        cases found with
        | none => exact .inl ⟨hleft,fun _ h => (by cases h)⟩
        | some found => exact absurd rfl (hnone found)
    · obtain rfl : left = some chunks := hleft
      refine (ended_of_copy readBody_brings hne hreads h hw download).mono ?_
      rintro ⟨r,rcv'⟩ u hu
      rcases hu with ⟨hleft,hnone⟩ | ⟨found,hleft,hu⟩
      · cases r with
        | error e => exact .inl ⟨hleft,fun _ h => (by cases h)⟩
        | ok found =>
          cases found with
          | none => exact .inl ⟨hleft,fun _ h => (by cases h)⟩
          | some found => exact absurd rfl (hnone found)
      · cases hu with
        | all hseen hfilling hhashed => exact .inr ⟨(),hleft,.all hseen hfilling hhashed⟩
        | refused hrefused huntouched hfile => exact .inr ⟨(),hleft,.refused hrefused huntouched hfile⟩
  | s3 bucket pre =>
    refine Program.Total.bind (p := net (.s3Get (key.mirrorPath pre)))
      ⟨⟨.ok none,_,.s3Elsewhere fun _ h => (by cases h)⟩,fun r u hu => ?_⟩
    cases hu with
    | disk h _ => cases h
    | s3Elsewhere hr =>
      cases r with
      | error code => exact .inl ⟨rfl,fun _ h => (by cases h)⟩
      | ok found =>
        cases found with
        | none => exact .inl ⟨rfl,fun _ h => (by cases h)⟩
        | some reads => exact absurd rfl (hr reads)
    | s3Begun hreads => exact ended_of_copy readS3_brings hne hreads h hw ()

theorem conclude_local (H : Sha256) (tmp : ℕ) (rcv : Receiver)
    (r : Except DatastoreError (Option α)) : (rcv.conclude H tmp r).Only fun c => c.isLocal = true := by
  unfold Receiver.conclude
  split
  · exact .bind (.perform rfl) fun _ => trivial
  · exact .bind (.perform rfl) fun _ => trivial
  · trivial

/-- Nothing is received when nothing was sent. -/
theorem conclude_nothing {r : Except DatastoreError (Option α)} (h : ∀ found, r ≠ .ok (some found)) :
    (rcv.conclude H tmp (rcv.verdict H artifact r)).Total (Call.Succeeds t)
      (fun out _ => ∀ received, out.1 ≠ .ok (some received)) w := by
  have hverdict : ∀ found, rcv.verdict H artifact r ≠ .ok (some found) := by
    intro found
    unfold Receiver.verdict
    split
    · exact fun h => (by cases h)
    · split
      · exact fun h => (by cases h)
      · exact fun h => (by cases h)
      · exact fun h => (by cases h)
      · exact fun h => (by cases h)
      · exact absurd rfl (h _)
  unfold Receiver.conclude
  split
  · exact total_fs () { w with tmp := w.tmp.erase tmp } (fun _ => rfl) fun _ h => (by cases h)
  · exact total_fs () { w with tmp := w.tmp.erase tmp } (fun _ => rfl) fun _ h => (by cases h)
  · rename_i found he
    exact absurd he (hverdict found)

/-- `receive` around a transfer. -/
theorem receive_mirror_total (mirror : Mirror) (hne : [] ∉ chunks) :
    (receive H artifact none (mirror.fetch H U artifact.key)).Total (Call.Transfers t chunks) (fun out u =>
      (u.2 = none ∧ ∀ received, out.1 ≠ .ok (some received)) ∨
        u.2 ≠ none ∧ ReceivedAs H t w artifact.check chunks.flatten out u.1) (w,none) := by
  refine Program.Total.bind ((total_disk (.perform rfl) (createTmp_total artifact.check)).mono ?_)
  rintro out ⟨v,left⟩ ⟨⟨tmp,rfl,hv⟩,hleft⟩
  obtain rfl : left = none := hleft
  refine Program.Total.bind ((fetch_total mirror artifact.key hne Receiver.seen_new hv).mono ?_)
  rintro ⟨r,rcv⟩ ⟨u,left⟩ hu
  rcases hu with ⟨hleft,hnone⟩ | ⟨found,hleft,hu⟩
  · obtain rfl : left = none := hleft
    refine (total_disk (conclude_local H tmp rcv _) (conclude_nothing hnone)).mono ?_
    exact fun out u hu => .inl ⟨hu.2,hu.1⟩
  · refine (total_disk (conclude_local H tmp rcv _) hu.conclude_total).mono ?_
    exact fun out u hu => .inr ⟨hu.2 ▸ hleft,hu.1⟩

theorem publishReceived_local {received : Received α} {layer : Layer} {source etag identity : Option String} :
    (Datastore.publishReceived H artifact received layer source etag identity).run.Only
      fun c => c.isLocal = true := by
  refine publishReceived_only rfl fun c entry _ hc => ?_
  cases c with
  | net c => cases hc
  | _ => rfl

theorem publishReceived_total {received : Received α} {body : Bytes} {layer : Layer}
    {source etag identity : Option String} (hw : Untouched w₀ w)
    (hfile : w.tmp.lookup received.tmp = some ⟨t,body⟩) (hfree : w₀.locks Layout.storeLockName = none)
    (hdirs : w₀.dirs (indexPath artifact.key) = false) (hblocked : w₀.blocked (indexPath artifact.key) = false)
    (hintact : ∀ old, w₀.blobs.lookup (H.hex body) = some old → H.hex old = H.hex body)
    (hdigest : received.digest = H.hex body) (hbytes : received.bytes = body.length) :
    (Datastore.publishReceived H artifact received layer source etag identity).run.Total (Call.Succeeds t)
      (fun out u => Delivered H artifact body w₀ (out.map Prod.fst) u ∧
        ∀ path n, out = .ok (path,n) → n = body.length) w := by
  refine Program.Total.bind_run (Program.Total.lift ?_)
  refine total_fs_bind ⟨0,0,w,rfl⟩ fun x out u hu => ?_
  cases hu
  refine Program.Total.bind_run ((publish_total hw hfile hfree hdirs hblocked hintact hdigest hbytes).mono ?_)
  intro out u hu
  cases out with
  | error e => exact ⟨hu,fun _ _ h => (by cases h)⟩
  | ok path =>
    refine ⟨hu,fun path' n h => ?_⟩
    cases h
    exact hbytes

/-- What a client makes of a body that its mirror has sent. -/
theorem fetchFromMirror_total (mirror : Mirror) (hne : [] ∉ chunks) (hfree : w.locks Layout.storeLockName = none)
    (hdirs : w.dirs (indexPath artifact.key) = false) (hblocked : w.blocked (indexPath artifact.key) = false)
    (hintact : ∀ old, w.blobs.lookup (H.hex chunks.flatten) = some old → H.hex old = H.hex chunks.flatten)
    (hwants : artifact.Wants H chunks.flatten) :
    (Datastore.fetchFromMirror H U artifact mirror none).Total (Call.Transfers t chunks) (fun out u =>
      u.2 = none ∨ ∃ path, out.1 = .ok (some (path,chunks.flatten.length)) ∧
        Delivered H artifact chunks.flatten w (.ok path) u.1) (w,none) := by
  refine Program.Total.bind ((receive_mirror_total mirror hne).mono ?_)
  rintro ⟨r,left⟩ ⟨v,rest⟩ hv
  rcases hv with ⟨hrest,hnone⟩ | ⟨hrest,hv⟩
  · cases r with
    | error e => exact .inl hrest
    | ok found =>
      cases found with
      | none => exact .inl hrest
      | some received => exact absurd rfl (hnone received)
  · cases hv with
    | whole huntouched hfile hdigest hbytes =>
      refine Program.Total.bind ((total_disk publishReceived_local (publishReceived_total huntouched hfile hfree
        hdirs hblocked hintact hdigest hbytes)).mono ?_)
      rintro out u ⟨⟨hdelivered,hlength⟩,-⟩
      obtain ⟨path,hpath⟩ := hdelivered.accepts.mpr hwants
      cases out with
      | error e => cases hpath
      | ok found =>
        obtain ⟨path',n⟩ := found
        obtain rfl := hlength path' n rfl
        exact .inr ⟨path',rfl,hdelivered⟩
    | refused huntouched hfailed =>
      exact absurd (ContentCheck.checkPrefix_of_accepts artifact.check hwants.2) hfailed

/-- The service redirects to an object whose metadata it accepts, if the store signs a URL. -/
theorem hit_consult {ask : (c : Call) → c.Ret} {info : MirrorObject}
    (hlicense : artifact.provenance.license.toList.all isWhitespace = false)
    (hask : ask (.net (.objectHead artifact.key)) = .ok (some info))
    (hmeta : checkMetadata artifact info = .ok ()) : (Service.hit artifact).run.consult ask =
      (ask (.net (.objectPresign artifact.key))).map fun url => some (url,info) := by
  have hhead : (Service.head artifact).run.consult ask = .ok (some info) := by
    rw [Service.head,if_neg (by simp [hlicense])]
    exact hask
  have hpresign : (ExceptT.mk (net (.objectPresign artifact.key)) : Op Url).run.consult ask =
      ask (.net (.objectPresign artifact.key)) := rfl
  simp only [Service.hit,Service.redirect,Program.consult_bind_run,hhead,Program.consult_lift_except,hmeta,
    hpresign]
  cases ask (.net (.objectPresign artifact.key)) <;> rfl

/-- An object that the verification accepts is redirected to by the service, with the
metadata that a HEAD returns, and a client to which its mirror sends that body, in any
chunks, accepts and publishes it. -/
theorem verified_served {m : S3Mirror} {b b' : Bucket} {v : Version} {s : ThreadId}
    {events : List (Program.Event S3Call S3Call.Ret)}
    (hlicense : artifact.provenance.license.toList.all isWhitespace = false)
    (hobject : b.object (m.path artifact.key) = some v)
    (hverified : (judgeObject H m artifact).Runs (S3Call.Does s) b events (.ok ()) b') :
    ∃ info, mirrorObject v.head = .ok info ∧
      (∀ s events b' found, (m.head artifact.key).run.Runs (S3Call.Does s) b events (.ok (some found)) b' →
        found = info ∧ checkMetadata artifact found = .ok ()) ∧
      (∀ ask : (c : Call) → c.Ret, ask (.net (.objectHead artifact.key)) = .ok (some info) →
        (Service.hit artifact).run.consult ask =
          (ask (.net (.objectPresign artifact.key))).map fun url => some (url,info)) ∧
      ∀ mirror chunks, chunks.flatten = v.body → [] ∉ chunks → w.locks Layout.storeLockName = none →
        w.dirs (indexPath artifact.key) = false → w.blocked (indexPath artifact.key) = false →
        (∀ old, w.blobs.lookup (H.hex v.body) = some old → H.hex old = H.hex v.body) →
        (Datastore.fetchFromMirror H U artifact mirror none).Total (Call.Transfers t chunks) (fun out u =>
          u.2 = none ∨ ∃ path blob entry, out.1 = .ok (some (path,v.body.length)) ∧
            u.1.fileAt path = some blob ∧ H.hex blob = info.sha256 ∧
            u.1.index.lookup (indexPath artifact.key) = some (.parsed entry) ∧
            entry.digest = info.sha256 ∧ entry.bytes = info.bytes) (w,none) := by
  obtain ⟨v',info,hobject',hinfo,hcompare⟩ := judgeObject_ok hverified
  cases hobject.symm.trans hobject'
  have hmeta := checkMetadata_of_compare hcompare
  obtain ⟨hhex,hbytes,hsize,haccepts⟩ := compareObject_ok hcompare
  refine ⟨info,hinfo,fun s events b' found hr => ?_,fun ask hask => hit_consult hlicense hask hmeta,?_⟩
  · obtain ⟨v'',hobject'',hfound⟩ := (head_runs hr).2 found rfl
    cases hobject.symm.trans hobject''
    cases hinfo.symm.trans hfound
    exact ⟨rfl,hmeta⟩
  · intro mirror chunks hchunks hne hfree hdirs hblocked hintact
    rw [← hchunks] at hintact
    have hwants : artifact.Wants H chunks.flatten := by
      rw [hchunks]
      exact ⟨fun n hn => (hsize n hn).trans hbytes.symm,haccepts⟩
    refine (fetchFromMirror_total mirror hne hfree hdirs hblocked hintact hwants).mono ?_
    rintro out u (hnone | ⟨path,hout,hdelivered⟩)
    · exact .inl hnone
    · obtain ⟨rfl,blob,hblob⟩ := hdelivered.stored path rfl
      obtain ⟨entry,hentry,hdigest,hlength⟩ := hdelivered.recorded _ rfl
      rw [hchunks] at hdigest hlength hout hblob
      refine .inr ⟨_,blob,entry,hout,?_,hblob.hex.trans hhex,hentry,hdigest.trans hhex,hlength.trans hbytes⟩
      simpa [World.fileAt,blobPath,hchunks] using hblob.file

end transfer

/-- The content `abc`, stored with its own metadata. -/
def Version.sample : Version where
  body := [0x61,0x62,0x63]
  metadata := (AList.insert "bytes" "3" ∅).insert "sha256" (Sha256.sample.hex [0x61,0x62,0x63])
  etag := "e"
  writer := none

def Artifact.licensed : Artifact := { Artifact.sample with provenance := ⟨"","CC0-1.0",none⟩ }

/-- A client of the sample object, which is verified by one HEAD and one GET. -/
theorem verified_served_sample : ∃ info, mirrorObject Version.sample.head = .ok info ∧
    (Datastore.fetchFromMirror .sample (twoHosts "a.com" "b.org") .licensed (.s3 "bucket" "") none).Total
      (Call.Transfers 0 [[0x61],[0x62,0x63]]) (fun out u => u.2 = none ∨
        ∃ path, out.1 = .ok (some (path,3)) ∧ (u.1.fileAt path).isSome) (.fresh,none) := by
  let m : S3Mirror := ⟨"bucket",""⟩
  let b : Bucket := Bucket.store ⟨fun _ => none,fun _ => [],∅⟩ "abc" .sample
  have hobject : b.object (m.path Artifact.licensed.key) = some .sample := rfl
  have hget : S3Call.Does 0 (.getObject (m.path Artifact.licensed.key)) b
      (.ok ⟨[[0x61],[0x62,0x63]],true⟩) b := .get hobject fun _ => rfl
  have hfile : S3Call.Does 0 .file b (.ok ()) b := .file
  have hmeta : (mirrorObject Version.sample.head).map some =
      .ok (some ⟨Sha256.sample.hex [0x61,0x62,0x63],3,some "e",none,none,0⟩) := by decide
  have hhead : ∃ events, (m.head Artifact.licensed.key).run.Runs (S3Call.Does 0) b events
      ((mirrorObject Version.sample.head).map some) b := ⟨_,.call (.head hobject) (.done _ _)⟩
  obtain ⟨before,hhead⟩ := hhead
  rw [hmeta] at hhead
  have hcheck : ∃ events, (checkObject .sample m .licensed
      (.ok (some ⟨Sha256.sample.hex [0x61,0x62,0x63],3,some "e",none,none,0⟩))).run.Runs (S3Call.Does 0) b
      events (.ok ()) b :=
    ⟨_,.call hget (.call hfile (.call hfile (.call hfile
      (.call hfile (.done _ _)))))⟩
  obtain ⟨after,hcheck⟩ := hcheck
  have hverified : ∃ events b', (judgeObject .sample m .licensed).Runs (S3Call.Does 0) b events (.ok ()) b' :=
    ⟨_,_,hhead.bind hcheck⟩
  obtain ⟨events,b',hverified⟩ := hverified
  obtain ⟨info,hinfo,-,-,hclient⟩ := verified_served (U := twoHosts "a.com" "b.org") (t := 0) (w := .fresh)
    (by decide) hobject hverified
  refine ⟨info,hinfo,(hclient (.s3 "bucket" "") [[0x61],[0x62,0x63]] rfl (by decide) rfl rfl rfl
    fun old h => by cases h).mono ?_⟩
  rintro out u (hnone | ⟨path,blob,entry,hout,hblob,-⟩)
  · exact .inl hnone
  · exact .inr ⟨path,hout,by rw [hblob]; rfl⟩

end StarfieldDatastore
