import StarfieldDatastore.Attempts
import StarfieldDatastore.Removal

/-! The sources of an artifact, tried in order: the first that offers a body is the one that
is served, and nothing of the others is left. -/
namespace StarfieldDatastore
open Interleaving

/-- A source and what answers for it. -/
abbrev Offer := Source × Peer

/-- What a chain whose sources have all failed reports. -/
def Datastore.reported (U : UrlCrate) (artifact : Artifact) (errors : List DatastoreError) : DatastoreError :=
  let all := .allSourcesFailed artifact.key
    (List.zipWith (fun source e => s!"{sanitize U source.url}: {e.display}") artifact.sources errors)
  if artifact.sources.length = 1 then (errors.find? verbatim).getD all else all

/-- Nobody among these offers a body. -/
def NoneOffers (H : Sha256) (U : UrlCrate) (f : Fetcher) (artifact : Artifact) (w : World)
    (offers : List Offer) : Prop :=
  ∀ o ∈ offers, ∀ body, ¬ Offers H U f artifact w o.1 o.2 body

/-- An error has left index and blobs alone. -/
def Harmless {α : Type} (w : World) (out : Except DatastoreError α) (u : World) : Prop :=
  (∃ e, out = .error e) → u.index = w.index ∧ Spared w u

/-- How the sources fare that are left after `done`, of which each has failed. -/
inductive TryEnds (H : Sha256) (U : UrlCrate) (f : Fetcher) (artifact : Artifact) (w : World) (done : List Offer)
    (errors : List DatastoreError) (offers : List Offer) :
    Except DatastoreError (List String × ResolveOutcome) → World → Prop
  | served {skipped o rest body entry u} (split : offers = skipped++o :: rest)
      (first : NoneOffers H U f artifact w skipped) (good : Offers H U f artifact w o.1 o.2 body)
      (free : w.Open artifact.key) (digest : entry.digest = H.hex body) (bytes : entry.bytes = body.length)
      (added : Added H artifact.key entry body w u) : TryEnds H U f artifact w done errors offers
        (.ok (blobPath (H.hex body),⟨.upstream,body.length,some (done.length+skipped.length)⟩)) u
  | exhausted {more u} (why : List.Forall₂ (fun o e => AttemptFails H U f artifact w o.1 o.2 e) offers more)
      (same : Untouched w u) : TryEnds H U f artifact w done errors offers
        (.error (Datastore.reported U artifact (errors++more))) u
  | closed {o body out u} (mem : o ∈ offers) (good : Offers H U f artifact w o.1 o.2 body)
      (closed : ¬ w.Open artifact.key) (harmless : Harmless w out u) (locks : u.locks = w.locks) :
      TryEnds H U f artifact w done errors offers out u

section failover
variable {H : Sha256} {U : UrlCrate} {f : Fetcher} {ds : Datastore} {artifact : Artifact} {t : ThreadId}
  {w v u : World} {source : Source} {peer : Peer} {log : List Event} {body : Bytes} {e : DatastoreError}

theorem Untouched.trans (h : Untouched w v) (h' : Untouched v u) : Untouched w u :=
  ⟨h'.blobs.trans h.blobs,h'.index.trans h.index,h'.dirs.trans h.dirs,h'.locks.trans h.locks⟩

theorem Untouched.spared (h : Untouched w v) : Spared w v := fun _ _ hc => h.blobs ▸ hc

theorem Untouched.open_iff (h : Untouched w v) {key : ArtifactKey} : v.Open key ↔ w.Open key := by
  unfold World.Open World.blocked
  rw [h.dirs,h.index]

theorem Spared.trans (h : Spared w v) (h' : Spared v u) : Spared w u := fun d c hc => h' d c (h d c hc)

theorem Offers.congr (h : Offers H U f artifact v source peer body) (hb : v.blobs = w.blobs) :
    Offers H U f artifact w source peer body := ⟨h.yields,h.wanted,fun old hold => h.intact old (hb ▸ hold)⟩

theorem AttemptFails.congr (h : AttemptFails H U f artifact v source peer e) (hb : v.blobs = w.blobs) :
    AttemptFails H U f artifact w source peer e := by
  cases h with
  | broken h => exact .broken h
  | notFound h => exact .notFound h
  | early h => exact .early h
  | unwanted yields h => exact .unwanted yields h
  | occupied yields there corrupt => exact .occupied yields (hb ▸ there) corrupt

theorem AttemptEnds.of_untouched {r : Except DatastoreError (List String × ℕ)} (hv : Untouched w v)
    (h : AttemptEnds H U f artifact v source peer r u) : AttemptEnds H U f artifact w source peer r u := by
  cases h with
  | failed why same => exact .failed (why.congr hv.blobs) (hv.trans same)
  | closed offers closed spared index locks =>
    exact .closed (offers.congr hv.blobs) (mt hv.open_iff.mpr closed) (hv.spared.trans spared)
      (index.trans hv.index) (locks.trans hv.locks)
  | served offers free digest bytes added =>
    refine .served (offers.congr hv.blobs) (hv.open_iff.mp free) digest bytes
      ⟨added.landed.congr hv.blobs rfl,?_,?_,added.locks.trans hv.locks⟩
    · rw [added.index,hv.index]
    · rw [added.dirs,hv.dirs]

/-- A source whose attempt fails has nothing to offer. -/
theorem AttemptFails.none (h : AttemptFails H U f artifact w source peer e) :
    ¬ Offers H U f artifact w source peer body := by
  rintro ⟨⟨download,hyields⟩,hwanted,hintact⟩
  cases h with
  | broken h =>
    rw [hyields] at h
    cases h
  | notFound h =>
    rw [hyields] at h
    cases h
  | early h =>
    rw [hyields] at h
    exact h (ContentCheck.checkPrefix_of_accepts _ hwanted.2)
  | unwanted yields h =>
    cases hyields.symm.trans yields
    exact h hwanted
  | occupied yields there corrupt =>
    cases hyields.symm.trans yields
    exact corrupt (hintact _ there)

theorem AttemptFails.passes (hlimit : ∀ host, f.lookup host ≠ .error .transferLimit)
    (h : AttemptFails H U f artifact w source peer e) : e ≠ .transferLimit := by
  rintro rfl
  cases h with
  | broken h =>
    rcases hear_errors h with hfinal | ⟨host,hhost⟩
    · cases hfinal
    · exact hlimit host hhost

theorem trySources_harmless (hlimit : ∀ host, ds.fetcher.lookup host ≠ .error .transferLimit) (offers : List Offer) :
    ∀ {w : World} (index : ℕ) (attempts : List String) (peer : Peer) (log : List Event),
      w.locks Layout.storeLockName = none →
      (ds.trySources H U artifact (offers.map Prod.fst) index none attempts).run.Total (Call.Faces t)
        (fun out x => Harmless w out x.1 ∧ x.1.locks = w.locks) (w,⟨peer,log,offers.map Prod.snd⟩) := by
  induction offers with
  | nil => exact fun _ _ _ _ _ => ⟨fun _ => ⟨rfl,fun _ _ h => h⟩,rfl⟩
  | cons o offers ih =>
    intro w index attempts peer log hstore
    have hrest : ∀ {v : World} {e : DatastoreError} {scene : Scene}, v.locks = w.locks → v.index = w.index →
        Spared w v → e ≠ .transferLimit → scene.left = offers.map Prod.snd →
        (if e = .transferLimit then return .error e
          else if Datastore.verbatim e && artifact.sources.length = 1 then return .error e
          else (ds.trySources H U artifact (offers.map Prod.fst) (index+1) none
            (attempts++[s!"{sanitize U o.1.url}: {e.display}"])).run :
            Prog (Except DatastoreError (List String × ResolveOutcome))).Total (Call.Faces t)
              (fun out x => Harmless w out x.1 ∧ x.1.locks = w.locks) (v,scene) := by
      rintro v e ⟨peer,log,left⟩ hlocks hindex hspared he rfl
      rw [if_neg he]
      split
      · exact ⟨fun _ => ⟨hindex,hspared⟩,hlocks⟩
      · refine (ih _ _ _ _ (hlocks ▸ hstore)).mono ?_
        rintro out x ⟨hx,hx'⟩
        refine ⟨fun herror => ?_,hx'.trans hlocks⟩
        obtain ⟨hi,hs⟩ := hx herror
        exact ⟨hi.trans hindex,hspared.trans hs⟩
    refine Program.Total.bind ((fetchFromUpstream_ends hstore).mono ?_)
    rintro ⟨out,budget⟩ ⟨v,scene⟩ ⟨hends,hleft,hbudget⟩
    obtain rfl : budget = none := hbudget
    dsimp only at hends hleft
    cases hends with
    | failed why same => exact hrest same.locks same.index same.spared (why.passes hlimit) hleft
    | closed _ _ spared index locks => exact hrest locks index spared (by simp) hleft
    | served _ _ _ _ added =>
      refine ⟨?_,added.locks⟩
      rintro ⟨e,he⟩
      cases he

/-- The attempts that have failed, as they are reported. -/
def attemptTexts (U : UrlCrate) (done : List Offer) (errors : List DatastoreError) : List String :=
  List.zipWith (fun source e => s!"{sanitize U source.url}: {e.display}") (done.map Prod.fst) errors

theorem attemptTexts_concat {done : List Offer} {errors : List DatastoreError} (hlen : done.length = errors.length)
    (o : Offer) (e : DatastoreError) : attemptTexts U (done++[o]) (errors++[e]) =
      attemptTexts U done errors++[s!"{sanitize U o.1.url}: {e.display}"] := by
  unfold attemptTexts
  rw [List.map_append,List.zipWith_append (by simpa using hlen)]
  rfl

/-- One more source has failed. -/
theorem TryEnds.cons {done offers : List Offer} {errors : List DatastoreError} {o : Offer} {e : DatastoreError}
    {out : Except DatastoreError (List String × ResolveOutcome)}
    (why : AttemptFails H U f artifact w o.1 o.2 e)
    (h : TryEnds H U f artifact w (done++[o]) (errors++[e]) offers out u) :
    TryEnds H U f artifact w done errors (o :: offers) out u := by
  cases h with
  | @served skipped o' rest body entry _ split first good free digest bytes added =>
    have hlen : (done++[o]).length+skipped.length = done.length+(o :: skipped).length := by
      simp only [List.length_append,List.length_cons,List.length_nil]
      omega
    rw [hlen]
    have hsplit : o :: offers = (o :: skipped)++o' :: rest := by rw [split]; rfl
    refine .served hsplit ?_ good free digest bytes added
    intro o'' hmem
    rcases List.mem_cons.mp hmem with rfl | hmem
    · exact fun body => why.none
    · exact first o'' hmem
  | @exhausted more _ why' same =>
    rw [List.append_assoc]
    exact .exhausted (.cons why why') same
  | closed mem good closed harmless locks => exact .closed (List.mem_cons_of_mem _ mem) good closed harmless locks

theorem trySources_fare (hlimit : ∀ host, ds.fetcher.lookup host ≠ .error .transferLimit)
    (hstore : w.locks Layout.storeLockName = none) (offers : List Offer) :
    ∀ {done : List Offer} {errors : List DatastoreError} {v : World} (peer : Peer) (log : List Event),
      artifact.sources = (done++offers).map Prod.fst → done.length = errors.length →
      (artifact.sources.length = 1 → errors.find? Datastore.verbatim = none) → Untouched w v →
      (ds.trySources H U artifact (offers.map Prod.fst) done.length none (attemptTexts U done errors)).run.Total
        (Call.Faces t) (fun out x => TryEnds H U ds.fetcher artifact w done errors offers out x.1)
        (v,⟨peer,log,offers.map Prod.snd⟩) := by
  induction offers with
  | nil =>
    intro done errors v peer log hsources hlen hverbatim hv
    have hreported : Datastore.reported U artifact (errors++[]) =
        .allSourcesFailed artifact.key (attemptTexts U done errors) := by
      rw [List.append_nil,Datastore.reported,attemptTexts,hsources,List.append_nil]
      split
      · rename_i hone
        rw [hverbatim (by rw [hsources,List.append_nil]; exact hone)]
        rfl
      · rfl
    have h : TryEnds H U ds.fetcher artifact w done errors [] (.error (Datastore.reported U artifact (errors++[]))) v :=
      .exhausted .nil hv
    rw [hreported] at h
    exact h
  | cons o offers ih =>
    intro done errors v peer log hsources hlen hverbatim hv
    have hlocks : v.locks Layout.storeLockName = none := hv.locks ▸ hstore
    refine Program.Total.bind ((fetchFromUpstream_ends hlocks).mono ?_)
    rintro ⟨out,budget⟩ ⟨x,⟨peer,log,left⟩⟩ ⟨hends,hleft,hbudget⟩
    obtain rfl : budget = none := hbudget
    obtain rfl : left = offers.map Prod.snd := hleft
    replace hends := hends.of_untouched hv
    dsimp only at hends
    cases hends with
    | served good free digest bytes added =>
      have hsplit : o :: offers = []++o :: offers := rfl
      exact .served hsplit (by intro o ho; cases ho) good free digest bytes added
    | @closed e body _ good closed spared index locks =>
      have hio : DatastoreError.io e ≠ .transferLimit := by simp
      dsimp only
      rw [if_neg hio]
      have hharmless : ∀ {out : Except DatastoreError (List String × ResolveOutcome)} {u : World},
          Harmless x out u → u.locks = x.locks → TryEnds H U ds.fetcher artifact w done errors (o :: offers) out u := by
        intro out u h hlocks
        refine .closed List.mem_cons_self good closed (fun herror => ?_) (hlocks.trans locks)
        obtain ⟨hi,hs⟩ := h herror
        exact ⟨hi.trans index,spared.trans hs⟩
      split
      · exact hharmless (fun _ => ⟨rfl,fun _ _ h => h⟩) rfl
      · exact (trySources_harmless hlimit offers _ _ _ _ (locks ▸ hstore)).mono fun out u h => hharmless h.1 h.2
    | @failed e _ why same =>
      dsimp only
      rw [if_neg (why.passes hlimit)]
      split
      · rename_i halone
        rw [Bool.and_eq_true,decide_eq_true_eq] at halone
        obtain ⟨he,hone⟩ := halone
        -- the only source there is
        have hcount : done.length = 0 ∧ offers.length = 0 := by
          have := congrArg List.length hsources
          simp only [hone,List.length_map,List.length_append,List.length_cons] at this
          omega
        obtain rfl := List.length_eq_zero_iff.mp hcount.1
        obtain rfl := List.length_eq_zero_iff.mp hcount.2
        obtain rfl := List.length_eq_zero_iff.mp hlen.symm
        have hreported : Datastore.reported U artifact ([]++[e]) = e := by
          rw [Datastore.reported,if_pos hone]
          simp [he]
        have h : TryEnds H U ds.fetcher artifact w [] [] [o] (.error (Datastore.reported U artifact ([]++[e]))) x :=
          .exhausted (.cons why .nil) same
        rw [hreported] at h
        exact h
      · rename_i hnot
        have hsources' : artifact.sources = ((done++[o])++offers).map Prod.fst := by
          rw [hsources,List.append_assoc]
          rfl
        have hlen' : (done++[o]).length = (errors++[e]).length := by
          rw [List.length_append,List.length_append,hlen]
          rfl
        have hverbatim' : artifact.sources.length = 1 → (errors++[e]).find? Datastore.verbatim = none := by
          intro hone
          rw [List.find?_append,hverbatim hone]
          have he : Datastore.verbatim e = false := by simpa [hone] using hnot
          simp [he]
        have h := ih peer log hsources' hlen' hverbatim' same
        rw [attemptTexts_concat hlen,List.length_append] at h
        exact h.mono fun out u hu => hu.cons why

/-- A lock that is held around it makes no difference. -/
theorem TryEnds.outside {name : String} {done offers : List Offer} {errors : List DatastoreError}
    {out : Except DatastoreError (List String × ResolveOutcome)} (hfree : w.locks name = none)
    (h : TryEnds H U f artifact (w.setLock name (some t)) done errors offers out u) :
    u.locks name = some t ∧ TryEnds H U f artifact w done errors offers out (u.setLock name none) := by
  have hheld : (w.setLock name (some t)).locks name = some t := Function.update_self _ _ _
  have hback : ∀ {locks}, locks = (w.setLock name (some t)).locks → Function.update locks name none = w.locks := by
    rintro _ rfl
    rw [World.setLock,Function.update_idem]
    exact Function.update_eq_self_iff.mpr hfree.symm
  have hnone : ∀ {offers : List Offer}, NoneOffers H U f artifact (w.setLock name (some t)) offers →
      NoneOffers H U f artifact w offers := fun h o ho body hgood => h o ho body (hgood.congr rfl)
  cases h with
  | served split first good free digest bytes added =>
    exact ⟨(congrFun added.locks name).trans hheld,.served split (hnone first) (good.congr rfl) free digest bytes
      ⟨added.landed.congr rfl rfl,added.index,added.dirs,hback added.locks⟩⟩
  | exhausted why same =>
    refine ⟨(congrFun same.locks name).trans hheld,.exhausted (why.imp fun o e he => he.congr rfl)
      ⟨same.blobs,same.index,same.dirs,hback same.locks⟩⟩
  | closed mem good closed harmless locks =>
    exact ⟨(congrFun locks name).trans hheld,.closed mem (good.congr rfl) closed harmless (hback locks)⟩

/-- A mirror that sends no object, and nothing that the early check would refuse. -/
structure Mirror.Misses (H : Sha256) (U : UrlCrate) (artifact : Artifact) (peer : Peer) (mirror : Mirror) : Prop where
  nothing : ∀ info, (mirror.hear U artifact.key peer).result ≠ .ok (some info)
  unjudged : prefixBytes ≤ (mirror.hear U artifact.key peer).body.length →
    artifact.check.checkPrefix H ((mirror.hear U artifact.key peer).body.take prefixBytes) = .ok ()

/-- The peers that are left after the mirror, which is absent or misses. -/
def Bypassed (H : Sha256) (U : UrlCrate) (artifact : Artifact) (peers left : List Peer) : Option Mirror → Prop
  | none => peers = left
  | some mirror => ∃ peer, peers = peer :: left ∧ mirror.Misses H U artifact peer

theorem fetchFromMirror_misses {mirror : Mirror} {next : Peer} {left : List Peer}
    (h : mirror.Misses H U artifact next) :
    (Datastore.fetchFromMirror H U artifact mirror none).Total (Call.Faces t) (fun out x =>
      (out.1 = .ok none ∨ ∃ e, out.1 = .error e ∧ Datastore.final e = false) ∧ out.2 = none ∧
        Untouched w x.1 ∧ x.2.left = left) (w,⟨peer,log,next :: left⟩) := by
  have hreceive : (receive H artifact none (mirror.fetch H U artifact.key)).Total (Call.Faces t) (fun out x =>
      Gained H t w artifact (mirror.hear U artifact.key next).body (mirror.hear U artifact.key next).result
        out.1 x.1 ∧ x.2.left = left) (w,⟨peer,log,next :: left⟩) :=
    receive_gained (I := fun scene => scene.left = left) faces_beside (fun _ => rfl) faces_begun
      fun tmp v hv => fetch_poured hv
  refine Program.Total.bind ((hreceive.returns (receive_unlimited fun tmp => fetch_unlimited rfl)).mono ?_)
  rintro ⟨out,budget⟩ ⟨v,scene⟩ ⟨⟨hv,hscene⟩,hbudget⟩
  obtain rfl : budget = none := hbudget
  dsimp only at hv
  cases hv with
  | nothing result same => exact ⟨.inl rfl,rfl,same,hscene⟩
  | failed result same => exact ⟨.inr ⟨_,rfl,mirror_errors result⟩,rfl,same,hscene⟩
  | refused same failed full =>
    rcases full with full | ⟨info,hinfo⟩
    · exact absurd (h.unjudged full) failed
    · exact absurd hinfo (h.nothing info)
  | whole result _ _ _ _ => exact absurd result (h.nothing _)

theorem fetchUpstream_fares (hup : ds.allowUpstream = true)
    (hlimit : ∀ host, ds.fetcher.lookup host ≠ .error .transferLimit) (hstore : w.locks Layout.storeLockName = none)
    {offers : List Offer} (hsources : artifact.sources = offers.map Prod.fst) (hne : offers ≠ []) (reason : String)
    (hv : Untouched w v) {scene : Scene} (hscene : scene.left = offers.map Prod.snd) :
    (ds.fetchUpstream H U artifact reason none).run.Total (Call.Faces t) (fun out x =>
      TryEnds H U ds.fetcher artifact w [] [] offers out x.1) (v,scene) := by
  obtain ⟨peer,log,left⟩ := scene
  obtain rfl : left = offers.map Prod.snd := hscene
  have hsome : artifact.sources.isEmpty = false := by
    rw [hsources,List.isEmpty_map]
    exact List.isEmpty_eq_false_iff.mpr hne
  unfold Datastore.fetchUpstream
  rw [hsome,hup,hsources]
  have hall : artifact.sources = (([] : List Offer)++offers).map Prod.fst := hsources
  have hnone : artifact.sources.length = 1 → ([] : List DatastoreError).find? Datastore.verbatim = none := fun _ => rfl
  exact trySources_fare hlimit hstore offers peer log hall rfl hnone hv

theorem fetchChain_fares (hup : ds.allowUpstream = true)
    (hlimit : ∀ host, ds.fetcher.lookup host ≠ .error .transferLimit) (hstore : w.locks Layout.storeLockName = none)
    {offers : List Offer} (hsources : artifact.sources = offers.map Prod.fst) (hne : offers ≠ []) {peers : List Peer}
    (hmirror : Bypassed H U artifact peers (offers.map Prod.snd) ds.mirror) :
    (ds.fetchChain H U artifact none).run.Total (Call.Faces t) (fun out x =>
      TryEnds H U ds.fetcher artifact w [] [] offers out x.1) (w,⟨peer,log,peers⟩) := by
  unfold Datastore.fetchChain
  cases hm : ds.mirror with
  | none =>
    rw [hm] at hmirror
    exact fetchUpstream_fares hup hlimit hstore hsources hne _ ⟨rfl,rfl,rfl,rfl⟩ hmirror
  | some mirror =>
    rw [hm] at hmirror
    obtain ⟨next,rfl,hmisses⟩ := hmirror
    refine Program.Total.bind ((fetchFromMirror_misses hmisses).mono ?_)
    rintro ⟨out,budget⟩ ⟨v,scene⟩ ⟨hout,hbudget,hv,hscene⟩
    obtain rfl : budget = none := hbudget
    rcases hout with hout | ⟨e,hout,hfinal⟩
    · obtain rfl : out = .ok none := hout
      exact fetchUpstream_fares hup hlimit hstore hsources hne _ hv hscene
    · obtain rfl : out = .error e := hout
      dsimp only
      rw [if_neg (by rw [hfinal]; simp)]
      exact fetchUpstream_fares hup hlimit hstore hsources hne _ hv hscene

/-- There is one first source that offers a body, and it offers one body. -/
theorem first_offer {offers skipped skipped' rest rest' : List Offer} {o o' : Offer} {body body' : Bytes}
    (h : offers = skipped++o :: rest) (h' : offers = skipped'++o' :: rest')
    (hfirst : NoneOffers H U f artifact w skipped) (hfirst' : NoneOffers H U f artifact w skipped')
    (hgood : Offers H U f artifact w o.1 o.2 body) (hgood' : Offers H U f artifact w o'.1 o'.2 body') :
    skipped = skipped' ∧ body = body' := by
  induction skipped generalizing offers skipped' with
  | nil =>
    cases skipped' with
    | nil =>
      obtain ⟨download,hyields⟩ := hgood.yields
      obtain ⟨download',hyields'⟩ := hgood'.yields
      cases h.symm.trans h'
      cases hyields.symm.trans hyields'
      exact ⟨rfl,rfl⟩
    | cons first skipped' =>
      cases h.symm.trans h'
      exact absurd hgood (hfirst' _ List.mem_cons_self _)
  | cons first skipped ih =>
    cases skipped' with
    | nil =>
      cases h.symm.trans h'
      exact absurd hgood' (hfirst _ List.mem_cons_self _)
    | cons first' skipped' =>
      obtain ⟨rfl,htail⟩ := List.cons.inj (h.symm.trans h')
      obtain ⟨rfl,rfl⟩ := ih rfl htail (fun o ho => hfirst o (List.mem_cons_of_mem _ ho))
        fun o ho => hfirst' o (List.mem_cons_of_mem _ ho)
      exact ⟨rfl,rfl⟩

/-- Every source that has failed had nothing to offer. -/
theorem none_of_failed {offers : List Offer} {errors : List DatastoreError}
    (h : List.Forall₂ (fun o e => AttemptFails H U f artifact w o.1 o.2 e) offers errors) :
    NoneOffers H U f artifact w offers := by
  induction h with
  | nil =>
    intro o ho
    cases ho
  | cons why _ ih =>
    intro o ho body
    rcases List.mem_cons.mp ho with rfl | ho
    · exact why.none
    · exact ih o ho body

/-- After a local miss and a mirror that is absent or has failed, `get` serves what the first
source offers that has anything to offer. Otherwise it reports why each has failed, and an
error leaves index and blobs as they were. -/
theorem getWithBudget_sources {offers : List Offer} {peers : List Peer} (peer : Peer) (log : List Event)
    (hup : ds.allowUpstream = true) (honline : ds.offline = false)
    (hmiss : (ds.lookupLocal H artifact).run.consult w.answer = .ok none)
    (hkey : w.locks (Layout.keyLockName H artifact.key) = none) (hstore : w.locks Layout.storeLockName = none)
    (hlimit : ∀ host, ds.fetcher.lookup host ≠ .error .transferLimit)
    (hsources : artifact.sources = offers.map Prod.fst) (hne : offers ≠ [])
    (hmirror : Bypassed H U artifact peers (offers.map Prod.snd) ds.mirror) :
    (ds.getWithBudget H U artifact none).run.Total (Call.Faces t) (fun out x =>
      (∀ skipped o rest body, offers = skipped++o :: rest → NoneOffers H U ds.fetcher artifact w skipped →
        Offers H U ds.fetcher artifact w o.1 o.2 body → w.Open artifact.key →
        out = .ok (blobPath (H.hex body),⟨.upstream,body.length,some skipped.length⟩) ∧
        (∃ entry, x.1.index.lookup (indexPath artifact.key) = some (.parsed entry) ∧
          entry.digest = H.hex body ∧ entry.bytes = body.length) ∧ ∃ blob, Blob H body w x.1 blob) ∧
      (NoneOffers H U ds.fetcher artifact w offers → ∃ errors,
        List.Forall₂ (fun o e => AttemptFails H U ds.fetcher artifact w o.1 o.2 e) offers errors ∧
        out = .error (Datastore.reported U artifact errors)) ∧
      ((∃ e, out = .error e) → x.1.index = w.index ∧ Spared w x.1)) (w,⟨peer,log,peers⟩) := by
  have hfares : (ds.getWithBudget H U artifact none).run.Total (Call.Faces t) (fun out x =>
      TryEnds H U ds.fetcher artifact w [] [] offers out x.1) (w,⟨peer,log,peers⟩) := by
    refine beside_withLock faces_beside (fun _ => rfl) (fun _ => rfl) hkey (Program.Total.bind_run
      ((faces_disk (lookupLocal_only fun c hc => ?_) (total_looks (lookupLocal_only fun _ hc => hc))).mono ?_))
    · cases c <;> first | rfl | cases hc
    rintro out ⟨u,scene⟩ ⟨⟨hout,rfl⟩,rfl⟩
    rw [answer_setLock,hmiss] at hout
    subst hout
    dsimp only
    rw [honline]
    have hstore' : (w.setLock (Layout.keyLockName H artifact.key) (some t)).locks Layout.storeLockName = none :=
      (Function.update_of_ne (keyLockName_ne H artifact.key).symm _ _).trans hstore
    exact (fetchChain_fares hup hlimit hstore' hsources hne hmirror).mono fun out x hx => hx.outside hkey
  refine hfares.mono ?_
  rintro out ⟨u,scene⟩ hends
  dsimp only at hends
  cases hends with
  | served split first good free digest bytes added =>
    refine ⟨fun skipped o rest body hsplit hfirst hgood _ => ?_,fun hnone => ?_,?_⟩
    · obtain ⟨rfl,rfl⟩ := first_offer split hsplit first hfirst good hgood
      rw [List.length_nil,Nat.zero_add]
      refine ⟨rfl,⟨_,?_,digest,bytes⟩,added.landed.blob⟩
      rw [added.index]
      exact AList.lookup_insert _
    · exact absurd good (hnone _ (split ▸ List.mem_append_right _ List.mem_cons_self) _)
    · rintro ⟨e,he⟩
      cases he
  | exhausted why same =>
    refine ⟨fun skipped o rest body hsplit hfirst hgood _ => ?_,fun _ => ⟨_,why,rfl⟩,fun _ => ⟨same.index,same.spared⟩⟩
    exact absurd hgood (none_of_failed why o (hsplit ▸ List.mem_append_right _ List.mem_cons_self) body)
  | closed mem good closed harmless _ =>
    exact ⟨fun _ _ _ _ _ _ _ hopen => absurd hopen closed,fun hnone => absurd good (hnone _ mem _),harmless⟩

end failover

/-- Answers every request with this status and this body. -/
def Peer.static (status : ℕ) (body : Bytes) : Peer
  | _, .send _ _ => .ok ⟨status,none,none,2⟩
  | [_], .readBody => .ok body
  | _, c => World.fresh.answer (.net c)

/-- The first source has nothing, the second has the content. -/
theorem getWithBudget_sources_second :
    let ds : Datastore := ⟨⟨"/cache"⟩,none,⟨none⟩,true,false,none⟩
    let artifact := { Artifact.sample with sources := [⟨"https://a.com/",false⟩,⟨"https://b.org/",false⟩] }
    (ds.getWithBudget .sample (twoHosts "a.com" "b.org") artifact none).run.Total (Call.Faces 0)
      (fun out _ => out = .ok (blobPath (Sha256.sample.hex [0x61,0x62,0x63]),⟨.upstream,3,some 1⟩))
      (.fresh,⟨.static 404 [],[],[.static 404 [],.static 200 [0x61,0x62,0x63]]⟩) := by
  intro ds artifact
  let missing : Offer := (⟨"https://a.com/",false⟩,.static 404 [])
  let there : Offer := (⟨"https://b.org/",false⟩,.static 200 [0x61,0x62,0x63])
  have hfirst : NoneOffers .sample (twoHosts "a.com" "b.org") ds.fetcher artifact .fresh [missing] := by
    intro o ho body hgood
    obtain rfl := List.mem_singleton.mp ho
    obtain ⟨download,hyields⟩ := hgood.yields
    cases hyields
  have hgood : Offers .sample (twoHosts "a.com" "b.org") ds.fetcher artifact .fresh there.1 there.2
      [0x61,0x62,0x63] := by
    refine ⟨⟨⟨none,none⟩,rfl⟩,⟨fun n hn => ?_,?_⟩,fun old hold => ?_⟩
    · cases hn
      rfl
    · exact ⟨Nat.le_of_ble_eq_true rfl,rfl,trivial⟩
    · cases hold
  have hsources : artifact.sources = [missing,there].map Prod.fst := rfl
  have hmirror : Bypassed .sample (twoHosts "a.com" "b.org") artifact [missing.2,there.2]
      ([missing,there].map Prod.snd) ds.mirror := rfl
  refine (getWithBudget_sources (.static 404 []) [] rfl rfl rfl rfl rfl (fun host h => ?_) hsources (by simp)
    hmirror).mono fun out x hx => ?_
  · cases h
  · exact (hx.1 [missing] there [] _ rfl hfirst hgood ⟨rfl,rfl⟩).1

end StarfieldDatastore
