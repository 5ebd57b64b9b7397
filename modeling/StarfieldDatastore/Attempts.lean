import StarfieldDatastore.Peers

/-! One attempt at a source: how it ends is decided by what its peer sends and by the blobs
that are there. -/
namespace StarfieldDatastore
open Interleaving

section budget
variable {H : Sha256} {U : UrlCrate} {rcv : Receiver} {α : Type} {artifact : Artifact}

theorem write_unlimited (buf : Bytes) (h : rcv.budget = none) :
    (rcv.write H buf).Returns fun out => out.2.budget = none := by
  have hcharge : rcv.charge buf = some rcv := by rw [Receiver.charge,h]
  have hshow : (rcv.showHead H buf).budget = none := (Receiver.showHead_same H rcv buf).2.2.2.trans h
  unfold Receiver.write
  simp only [hcharge]
  split
  · exact h
  · split
    · exact hshow
    · intro r
      cases r with
      | error e => exact hshow
      | ok appended => exact hshow

theorem copy_unlimited (read : Prog (Except DatastoreError (Option Bytes))) (reads : ℕ) :
    ∀ {rcv : Receiver}, rcv.budget = none → (copy H read reads rcv).Returns fun out => out.2.budget = none := by
  induction reads with
  | zero => exact fun h => h
  | succ reads ih =>
    intro rcv h
    refine .bind (.of_all fun out => ?_)
    match out with
    | .error e => exact h
    | .ok none => exact h
    | .ok (some chunk) =>
      have hwrite : (rcv.writeAll H chunk).Returns fun out => out.2.budget = none := by
        unfold Receiver.writeAll
        split
        · exact h
        · exact write_unlimited chunk h
      refine .bind (hwrite.mono ?_)
      rintro ⟨out,rcv'⟩ hrcv
      cases out with
      | error e => exact hrcv
      | ok written => exact ih hrcv

theorem request_unlimited {f : Fetcher} {source : Source} (h : rcv.budget = none) :
    (f.request H U source rcv).Returns fun out => out.2.budget = none := by
  refine .bind (.of_all fun out => ?_)
  match out with
  | .error e => exact h
  | .ok none => exact h
  | .ok (some (response,download)) =>
    refine .bind ((copy_unlimited _ _ h).mono ?_)
    rintro ⟨out,rcv'⟩ hrcv
    cases out <;> exact hrcv

theorem fetch_unlimited {mirror : Mirror} {key : ArtifactKey} (h : rcv.budget = none) :
    (mirror.fetch H U key rcv).Returns fun out => out.2.budget = none := by
  cases mirror with
  | http base =>
    refine .bind ((request_unlimited h).mono ?_)
    rintro ⟨out,rcv'⟩ hrcv
    cases out <;> exact hrcv
  | s3 bucket pre =>
    refine .bind (.of_all fun out => ?_)
    match out with
    | .error code => exact h
    | .ok none => exact h
    | .ok (some reads) =>
      refine .bind ((copy_unlimited _ _ h).mono ?_)
      rintro ⟨out,rcv'⟩ hrcv
      cases out <;> exact hrcv

/-- Without a budget there is none afterwards. -/
theorem receive_unlimited {producer : Producer (Option α)}
    (h : ∀ tmp, (producer (.new tmp artifact.check none)).Returns fun out => out.2.budget = none) :
    (receive H artifact none producer).Returns fun out => out.2 = none := by
  refine .bind (.of_all fun out => ?_)
  cases out with
  | error e => rfl
  | ok tmp =>
    refine .bind ((h tmp).mono ?_)
    rintro ⟨out,rcv⟩ hrcv
    dsimp only at hrcv ⊢
    match rcv.verdict H artifact out with
    | .error e => exact fun _ => hrcv
    | .ok none => exact fun _ => hrcv
    | .ok (some info) => exact hrcv

end budget

section errors
variable {U : UrlCrate} {f : Fetcher} {source : Source} {peer : Peer}

theorem hostOf_error {url : Url} {e : DatastoreError} (h : hostOf U url = .error e) :
    Datastore.final e = false := by
  unfold hostOf at h
  split at h
  · cases h
  · cases h
    rfl

theorem parseSourceUrl_error {raw : String} {e : DatastoreError} (h : parseSourceUrl U raw = .error e) :
    Datastore.final e = false := by
  unfold parseSourceUrl at h
  split at h
  · cases h
    rfl
  · split at h
    · cases h
      rfl
    · split at h
      · cases h
        rfl
      · cases h

theorem validateHop_error {url target : Url} {e : DatastoreError} (h : validateHop U url target = .error e) :
    Datastore.final e = false := by
  unfold validateHop at h
  cases hparse : parseSourceUrl U (U.asStr target) with
  | error e' =>
    rw [hparse] at h
    cases h
    exact parseSourceUrl_error hparse
  | ok checked =>
    rw [hparse] at h
    change (if _ then _ else _) = _ at h
    split at h
    · cases h
      rfl
    · cases h

theorem credentialAt_error {originHost host : String} {origin : Option Credential} {hop : ℕ} {e : DatastoreError}
    (h : f.credentialAt source originHost origin hop host = .error e) : f.lookup host = .error e := by
  unfold Fetcher.credentialAt at h
  cases hlookup : f.lookup host with
  | error e' =>
    rw [hlookup] at h
    cases h
    rfl
  | ok found =>
    rw [hlookup] at h
    cases found with
    | some credential => cases h
    | none =>
      change (if _ then _ else _) = _ at h
      split at h <;> cases h

/-- An error that is not the provider's does not end the chain. -/
def Passing (f : Fetcher) (e : DatastoreError) : Prop := Datastore.final e = false ∨ ∃ host, f.lookup host = .error e

theorem hops_errors (originHost : String) (origin : Option Credential) (left : ℕ) : ∀ url identity,
    (f.hops U source originHost origin left url identity).run.Returns fun out =>
      ∀ e, out = .error e → Passing f e := by
  induction left with
  | zero =>
    intro url identity e he
    cases he
    exact .inl rfl
  | succ left ih =>
    intro url identity
    have herror : ∀ e, Passing f e → ∀ e' : DatastoreError,
        (Except.error e : Except DatastoreError (Option (Response × Download))) = .error e' → Passing f e' := by
      intro e he e' he'
      cases he'
      exact he
    refine .except_bind (fun e he => herror e (.inl (hostOf_error he))) fun host _ =>
      .except_bind (fun e he => herror e (.inr ⟨host,credentialAt_error he⟩)) fun found _ =>
      .bind_run (.lift (.of_all fun looksExpired => .bind_run (.lift (.of_all fun reply => ?_))))
    cases reply with
    | error e => exact herror _ (.inl rfl)
    | ok response =>
      dsimp only
      split
      · cases response.location with
        | none => exact herror _ (.inl rfl)
        | some location =>
          dsimp only
          split
          · exact herror _ (.inl rfl)
          · exact .except_bind (fun e he => herror e (.inl (validateHop_error he))) fun url _ => ih _ _
      · split
        · split
          · exact herror _ (.inl rfl)
          · exact herror _ (.inl rfl)
        · split
          · intro e he
            cases he
          · split
            · exact herror _ (.inl rfl)
            · intro e he
              cases he

theorem navigate_errors : (f.navigate U source).run.Returns fun out => ∀ e, out = .error e → Passing f e := by
  have herror : ∀ e, Passing f e → ∀ e' : DatastoreError,
      (Except.error e : Except DatastoreError (Option (Response × Download))) = .error e' → Passing f e' := by
    intro e he e' he'
    cases he'
    exact he
  exact .except_bind (fun e he => herror e (.inl (parseSourceUrl_error he))) fun url _ =>
    .except_bind (fun e he => herror e (.inl (hostOf_error he))) fun host _ =>
    .except_bind (fun e he => herror e (.inr ⟨host,he⟩)) fun origin _ => hops_errors _ _ _ _ _

theorem pull_errors (peer : Peer) {read : Prog (Except DatastoreError (Option Bytes))}
    (hread : read.Returns fun out => ∀ e, out = .error e → Datastore.final e = false) (reads : ℕ) :
    ∀ log e, (peer.pull read reads log).2 = .error e → Datastore.final e = false := by
  induction reads with
  | zero =>
    intro log e h
    cases h
  | succ reads ih =>
    intro log e h
    rw [Peer.pull] at h
    split at h
    · rename_i e' log' hsaid
      cases h
      exact (congrArg Prod.fst hsaid ▸ hread.converse peer.ask log) e rfl
    · cases h
    · exact ih _ e h

theorem stream_errors {α : Type} {read : Prog (Except DatastoreError (Option Bytes))} {reads : ℕ}
    {log : List Event} {info : α} {e : DatastoreError}
    (hread : read.Returns fun out => ∀ e, out = .error e → Datastore.final e = false)
    (h : (peer.stream read reads log info).result = .error e) : Datastore.final e = false := by
  refine pull_errors peer hread reads log e ?_
  unfold Peer.stream at h
  cases hpull : (peer.pull read reads log).2 with
  | error e' =>
    rw [hpull] at h
    cases h
    rfl
  | ok passed =>
    rw [hpull] at h
    cases h

theorem readBody_errors : readBody.Returns fun out => ∀ e, out = .error e → Datastore.final e = false := by
  intro r
  match r with
  | .error e =>
    intro e' he'
    cases he'
    rfl
  | .ok [] =>
    intro e he
    cases he
  | .ok (b :: chunk) =>
    intro e he
    cases he

theorem readS3_errors : readS3.Returns fun out => ∀ e, out = .error e → Datastore.final e = false := by
  intro r
  cases r with
  | error _ =>
    intro e he
    cases he
    rfl
  | ok chunk =>
    intro e he
    cases he

theorem hear_errors {e : DatastoreError} (h : (f.hear U source peer).result = .error e) : Passing f e := by
  have hnavigate : ∀ e, ((f.navigate U source).run.converse peer.ask []).1 = .error e → Passing f e :=
    navigate_errors.converse peer.ask []
  unfold Fetcher.hear at h
  revert hnavigate h
  generalize (f.navigate U source).run.converse peer.ask [] = said
  obtain ⟨out,log⟩ := said
  match out with
  | .error e' =>
    intro h hnavigate
    cases h
    exact hnavigate _ rfl
  | .ok none =>
    intro h
    cases h
  | .ok (some (response,download)) => exact fun h _ => .inl (stream_errors readBody_errors h)

theorem refused_errors {e : DatastoreError} (h : Datastore.final e = false) :
    Datastore.final (Mirror.refused e) = false := by
  unfold Mirror.refused
  split
  · rfl
  · exact h

/-- No error of a mirror itself ends the chain. -/
theorem mirror_errors {mirror : Mirror} {key : ArtifactKey} {e : DatastoreError}
    (h : (mirror.hear U key peer).result = .error e) : Datastore.final e = false := by
  cases mirror with
  | http base =>
    unfold Mirror.hear at h
    dsimp only at h
    cases hheard : (Fetcher.hear U ⟨none⟩ (.new ((Mirror.http base).location key)) peer).result with
    | ok found =>
      rw [hheard] at h
      cases h
    | error e' =>
      rw [hheard] at h
      cases h
      rcases hear_errors hheard with hfinal | ⟨host,hhost⟩
      · exact refused_errors hfinal
      · cases hhost
  | s3 bucket pre =>
    unfold Mirror.hear at h
    dsimp only at h
    revert h
    generalize (net (.s3Get (key.mirrorPath pre))).converse peer.ask [] = said
    obtain ⟨out,log⟩ := said
    match out with
    | .error code =>
      intro h
      cases h
      rfl
    | .ok none =>
      intro h
      cases h
    | .ok (some reads) => exact fun h => stream_errors readS3_errors h

end errors

section attempt
variable {H : Sha256} {U : UrlCrate} {ds : Datastore} {artifact : Artifact} {source : Source} {peer next : Peer}
  {t : ThreadId} {w u : World} {log : List Event} {left : List Peer}

/-- A source that yields a body which the artifact asks for and which has room. -/
structure Offers (H : Sha256) (U : UrlCrate) (f : Fetcher) (artifact : Artifact) (w : World) (source : Source)
    (peer : Peer) (body : Bytes) : Prop where
  yields : ∃ download, f.hear U source peer = ⟨body,.ok (some download)⟩
  wanted : artifact.Wants H body
  intact : ∀ old, w.blobs.lookup (H.hex body) = some old → H.hex old = H.hex body

/-- Why an attempt at a source fails. -/
inductive AttemptFails (H : Sha256) (U : UrlCrate) (f : Fetcher) (artifact : Artifact) (w : World)
    (source : Source) (peer : Peer) : DatastoreError → Prop
  | broken {e} (h : (f.hear U source peer).result = .error e) : AttemptFails H U f artifact w source peer e
  | notFound (h : (f.hear U source peer).result = .ok none) :
      AttemptFails H U f artifact w source peer (.mirror "HTTP 404 Not Found")
  | early {failure} (h : artifact.check.checkPrefix H ((f.hear U source peer).body.take prefixBytes) ≠ .ok ()) :
      AttemptFails H U f artifact w source peer (.contentRejected artifact.key failure)
  | unwanted {body download failure} (yields : f.hear U source peer = ⟨body,.ok (some download)⟩)
      (h : ¬ artifact.Wants H body) : AttemptFails H U f artifact w source peer (.contentRejected artifact.key failure)
  | occupied {body download old failure} (yields : f.hear U source peer = ⟨body,.ok (some download)⟩)
      (there : w.blobs.lookup (H.hex body) = some old) (corrupt : H.hex old ≠ H.hex body) :
      AttemptFails H U f artifact w source peer (.contentRejected artifact.key failure)

/-- How an attempt ends. -/
inductive AttemptEnds (H : Sha256) (U : UrlCrate) (f : Fetcher) (artifact : Artifact) (w : World) (source : Source)
    (peer : Peer) : Except DatastoreError (List String × ℕ) → World → Prop
  | failed {e u} (why : AttemptFails H U f artifact w source peer e) (same : Untouched w u) :
      AttemptEnds H U f artifact w source peer (.error e) u
  | closed {e body u} (offers : Offers H U f artifact w source peer body) (closed : ¬ w.Open artifact.key)
      (spared : Spared w u) (index : u.index = w.index) (locks : u.locks = w.locks) : AttemptEnds H U f artifact w source peer (.error (.io e)) u
  | served {body entry u} (offers : Offers H U f artifact w source peer body) (free : w.Open artifact.key)
      (digest : entry.digest = H.hex body) (bytes : entry.bytes = body.length)
      (added : Added H artifact.key entry body w u) :
      AttemptEnds H U f artifact w source peer (.ok (blobPath (H.hex body),body.length)) u

theorem now_total : nowUnix.Total (Call.Works t) (fun _ v => v = w) w :=
  ⟨⟨.ok 0,w,0,rfl⟩,fun r v ⟨x,hx⟩ => by cases hx; rfl⟩

/-- The publication of what has been received, with the current time in the sidecar. -/
theorem publishReceived_ends {α : Type} {received : Received α} {body : Bytes} {layer : Layer}
    {origin etag identity : Option String} (hw : Untouched w u) (hfile : u.tmp.lookup received.tmp = some ⟨t,body⟩)
    (hstore : w.locks Layout.storeLockName = none) (hdigest : received.digest = H.hex body)
    (hbytes : received.bytes = body.length) :
    (Datastore.publishReceived H artifact received layer origin etag identity).run.Total (Call.Works t)
      (fun out v => ∃ r entry, entry.digest = H.hex body ∧ entry.bytes = body.length ∧
        PublishEnds H artifact body entry w r v ∧ out = r.map fun path => (path,body.length)) u := by
  refine Program.Total.bind_run (Program.Total.lift (now_total.mono ?_))
  rintro time v rfl
  refine Program.Total.bind_run ((publish_ends hw hfile hstore hdigest hbytes).mono ?_)
  intro out v hv
  cases out with
  | error e => exact ⟨_,_,hdigest,hbytes,hv,rfl⟩
  | ok path => exact ⟨_,_,hdigest,hbytes,hv,by rw [← hbytes]; rfl⟩

theorem publishReceived_disk {α : Type} {received : Received α} {layer : Layer} {origin etag identity : Option String} :
    (Datastore.publishReceived H artifact received layer origin etag identity).run.Only
      fun c => c.onDisk = true := by
  refine .bind_run (.lift (nowUnix_only rfl)) fun time => .bind_run ((publish_publishing _).mono fun c hc => ?_)
    fun _ => trivial
  cases c with
  | fs c => cases c <;> first | rfl | cases hc
  | net c => cases hc
  | cache c => cases hc

theorem fetchFromUpstream_ends (hstore : w.locks Layout.storeLockName = none) :
    (ds.fetchFromUpstream H U artifact source none).Total (Call.Faces t) (fun out x =>
      AttemptEnds H U ds.fetcher artifact w source next out.1 x.1 ∧ x.2.left = left ∧ out.2 = none)
        (w,⟨peer,log,next :: left⟩) := by
  have hreceive : (receive H artifact none (ds.fetcher.request H U source)).Total (Call.Faces t) (fun out x =>
      Gained H t w artifact (ds.fetcher.hear U source next).body (ds.fetcher.hear U source next).result out.1 x.1 ∧
        x.2.left = left) (w,⟨peer,log,next :: left⟩) :=
    receive_gained (I := fun scene => scene.left = left) faces_beside (fun _ => rfl) faces_begun
      fun tmp v hv => request_poured hv
  refine Program.Total.bind ((hreceive.returns (receive_unlimited fun tmp => request_unlimited rfl)).mono ?_)
  rintro ⟨out,budget⟩ ⟨v,scene⟩ ⟨⟨hv,hscene⟩,hbudget⟩
  obtain rfl : budget = none := hbudget
  dsimp only at hv
  cases hv with
  | nothing result same => exact ⟨.failed (.notFound result) same,hscene,rfl⟩
  | failed result same => exact ⟨.failed (.broken result) same,hscene,rfl⟩
  | refused same failed _ => exact ⟨.failed (.early failed) same,hscene,rfl⟩
  | @whole received _ result same file digest bytes =>
    have hyields : ds.fetcher.hear U source next =
        ⟨(ds.fetcher.hear U source next).body,.ok (some received.info)⟩ := by rw [← result]
    refine Program.Total.bind ((faces_disk publishReceived_disk
      (publishReceived_ends same file hstore digest bytes)).mono ?_)
    rintro out ⟨x,scene'⟩ ⟨⟨r,entry,hdigest,hbytes,hends,rfl⟩,rfl⟩
    refine ⟨?_,hscene,rfl⟩
    dsimp only at hends ⊢
    cases hends with
    | rejected unwanted same => exact .failed (.unwanted hyields unwanted) same
    | occupied there corrupt same => exact .failed (.occupied hyields there corrupt) same
    | refused wanted closed landed index locks =>
      exact .closed ⟨⟨_,hyields⟩,wanted,landed.intact⟩ closed landed.spared index locks
    | added wanted free added =>
      exact .served ⟨⟨_,hyields⟩,wanted,added.landed.intact⟩ free hdigest hbytes added

end attempt
end StarfieldDatastore
