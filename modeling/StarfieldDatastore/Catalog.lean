import StarfieldDatastore.Scope
import Mathlib.Data.String.Basic

/-! The index as a map from keys to entries, over any history of operations that
succeeded. -/
namespace StarfieldDatastore
open Interleaving

/-- The last sidecar that these events put in place is `entry`, under `key`. -/
def Wrote (key : ArtifactKey) (entry : IndexEntry) (events : List Event) : Prop :=
  ∃ before after, events = before++⟨.fs (.persistSidecar (indexPath key) entry),.ok ()⟩ :: after ∧
    ∀ e ∈ after, ∀ m, e.index m = m

/-- A store that was empty, after operations that succeeded one after the other, with the
entry last published for each key that has not been removed since. -/
inductive History (H : Sha256) (U : UrlCrate) : World → (ArtifactKey → Option IndexEntry) → Prop
  | empty : History H U .fresh fun _ => none
  | imported {w m w' t artifact path events blob entry} (before : History H U w m)
      (run : (Datastore.importFile H artifact path).run.Runs (Call.Does t) w events (.ok blob) w')
      (wrote : Wrote artifact.key entry events) :
      History H U w' (Function.update m artifact.key (some entry))
  | fetched {w m w' t artifact events blob outcome entry} {ds : Datastore} {budget : Option ℕ}
      (before : History H U w m)
      (run : (ds.getWithBudget H U artifact budget).run.Runs (Call.Does t) w events
        (.ok (blob,outcome)) w')
      (remote : outcome.layer ≠ .localDisk) (wrote : Wrote artifact.key entry events) :
      History H U w' (Function.update m artifact.key (some entry))
  | removed {w m w' t key events} {ds : Datastore} (before : History H U w m)
      (run : (ds.remove H key).run.Runs (Call.Does t) w events (.ok ()) w') :
      History H U w' (Function.update m key none)

section wrote
variable {key : ArtifactKey} {entry : IndexEntry} {events more : List Event}

theorem Wrote.prepend (h : Wrote key entry events) : Wrote key entry (more++events) := by
  obtain ⟨before,after,rfl,hquiet⟩ := h
  exact ⟨more++before,after,by simp,hquiet⟩

theorem Wrote.append (h : Wrote key entry events) (hquiet : ∀ e ∈ more, ∀ m, e.index m = m) :
    Wrote key entry (events++more) := by
  obtain ⟨before,after,rfl,hq⟩ := h
  refine ⟨before,after++more,by simp,fun e he => ?_⟩
  rcases List.mem_append.mp he with he | he
  · exact hq e he
  · exact hquiet e he

theorem replay_quiet (h : ∀ e ∈ events, ∀ m, e.index m = m)
    (m : String → Option Sidecar) : replay events m = m := by
  induction events with
  | nil => rfl
  | cons e events ih =>
    rw [replay_cons,h e (by simp)]
    exact ih fun e he => h e (by simp [he])

theorem Wrote.replay (h : Wrote key entry events) (m : String → Option Sidecar) :
    replay events m (indexPath key) = some (.parsed entry) := by
  obtain ⟨before,after,rfl,hquiet⟩ := h
  rw [replay_append,replay_cons,replay_quiet hquiet]
  exact Function.update_self _ _ _

end wrote

section finishes
variable {H : Sha256} {U : UrlCrate} {ds : Datastore} {artifact : Artifact} {entry : IndexEntry}
  {events : List Event} {α : Type}

theorem io_finishes {c : FsCall} {out : c.Out} (h : (io c).run.Finishes events (.ok out)) :
    events = [⟨.fs c,.ok out⟩] := by
  cases h with
  | @call _ _ r _ _ tail =>
    cases r with
    | error e => cases tail
    | ok out' =>
      cases tail
      rfl

theorem writeEntry_wrote {key : ArtifactKey} (h : (Layout.writeEntry key entry).run.Finishes events (.ok ())) :
    Wrote key entry events := by
  obtain ⟨e₁,_,r₁,rfl,-,h⟩ := h.bind_run_ok
  obtain ⟨e₂,_,r₂,rfl,-,h⟩ := h.bind_run_ok
  obtain ⟨e₃,_,r₃,rfl,hpersist,hsync⟩ := h.bind_run_ok
  obtain rfl := io_finishes hpersist
  obtain rfl := io_finishes hsync
  refine (Wrote.prepend (Wrote.prepend ⟨[],_,rfl,fun e he m => ?_⟩))
  obtain rfl := List.mem_singleton.mp he
  rfl

/-- A path that publication returns is that of the digest. -/
theorem layout_publish_path {tmp : ℕ} {digest : String} {path : List String}
    (h : (Layout.publish H tmp digest).run.Finishes events (.ok (some path))) : path = blobPath digest := by
  obtain ⟨e₁,found,r₁,rfl,-,h⟩ := Program.Finishes.bind_cases h
  cases found
  · obtain ⟨e₂,r,r₂,rfl,-,h⟩ := Program.Finishes.bind_cases h
    cases r with
    | error e =>
      obtain ⟨e₃,_,r₃,rfl,-,h⟩ := Program.Finishes.bind_cases h
      cases h
    | ok moved =>
      obtain ⟨e₃,_,r₃,rfl,-,h⟩ := Program.Finishes.bind_run_ok h
      cases h
      rfl
  · obtain ⟨e₂,actual,r₂,rfl,-,h⟩ := Program.Finishes.bind_cases h
    obtain ⟨e₃,_,r₃,rfl,-,h⟩ := Program.Finishes.bind_cases h
    generalize hr : actual.map (fun actual => if actual = digest then some (blobPath digest) else none) = r at h
    cases h
    cases actual with
    | error e => cases hr
    | ok actual =>
      simp only [Except.map,Except.ok.injEq] at hr
      split at hr
      · exact (Option.some.inj hr).symm
      · cases hr

/-- A publication that returns `blob` has put `entry` in place, whose digest names it. -/
structure Registers (key : ArtifactKey) (entry : IndexEntry) (blob : List String)
    (events : List Event) : Prop where
  wrote : Wrote key entry events
  path : blob = blobPath entry.digest

theorem Registers.prepend {key : ArtifactKey} {blob : List String} {more : List Event}
    (h : Registers key entry blob events) : Registers key entry blob (more++events) :=
  ⟨h.wrote.prepend,h.path⟩

theorem publishLocked_registers {tmp : ℕ} {path : List String}
    (h : (publishLocked H artifact tmp entry).run.Finishes events (.ok path)) :
    Registers artifact.key entry path events := by
  obtain ⟨e₁,found,r₁,rfl,hpublish,h⟩ := h.bind_run_ok
  cases found with
  | none => cases h
  | some path' =>
    obtain ⟨e₂,_,r₂,rfl,hentry,hdone⟩ := h.bind_run_ok
    cases hdone
    exact ⟨.prepend (.append (writeEntry_wrote hentry) (by simp)),layout_publish_path hpublish⟩

theorem publish_registers {tmp : ℕ} {path : List String}
    (h : (publish H artifact tmp entry).run.Finishes events (.ok path)) :
    Registers artifact.key entry path events := by
  obtain ⟨e₁,r,r₁,rfl,-,h⟩ := Program.Finishes.bind_cases h
  cases r with
  | error e =>
    obtain ⟨e₂,_,r₂,rfl,-,h⟩ := Program.Finishes.bind_cases h
    cases h
  | ok passed =>
    obtain ⟨e₂,r,r₂,rfl,-,h⟩ := Program.Finishes.bind_cases h
    cases r with
    | error e =>
      obtain ⟨e₃,_,r₃,rfl,-,h⟩ := Program.Finishes.bind_cases h
      cases h
    | ok locked =>
      obtain ⟨e₃,result,r₃,rfl,hlocked,h⟩ := Program.Finishes.bind_cases h
      obtain ⟨e₄,_,r₄,rfl,hunlock,h⟩ := Program.Finishes.bind_cases h
      cases h
      have hregisters := publishLocked_registers hlocked
      refine .prepend (.prepend ⟨hregisters.wrote.append ?_,hregisters.path⟩)
      cases hunlock with
      | call tail =>
        cases tail
        rintro e he m
        obtain rfl := List.mem_singleton.mp (by simpa using he)
        rfl

/-- What a fetch that succeeds has registered. -/
def Fetches (key : ArtifactKey) (layer : Layer) (events : List Event) (found : List String × ℕ) : Prop :=
  ∃ entry, Registers key entry found.1 events ∧ entry.bytes = found.2 ∧ entry.layer = layer

theorem Fetches.prepend {key : ArtifactKey} {layer : Layer} {found : List String × ℕ}
    {more : List Event} (h : Fetches key layer events found) : Fetches key layer (more++events) found :=
  h.imp fun _ he => ⟨he.1.prepend,he.2⟩

theorem publishReceived_fetches {received : Received α} {layer : Layer}
    {source etag identity : Option String} {found : List String × ℕ}
    (h : (Datastore.publishReceived H artifact received layer source etag identity).run.Finishes events
      (.ok found)) : Fetches artifact.key layer events found := by
  obtain ⟨e₁,now,r₁,rfl,-,h⟩ := h.bind_run_ok
  obtain ⟨e₂,path,r₂,rfl,hpublish,h⟩ := h.bind_run_ok
  cases h
  rw [List.append_nil]
  exact .prepend ⟨_,publish_registers hpublish,rfl,rfl⟩

theorem fetchFromMirror_fetches {mirror : Mirror} {budget left : Option ℕ} {found : List String × ℕ}
    (h : (Datastore.fetchFromMirror H U artifact mirror budget).Finishes events (.ok (some found),left)) :
    Fetches artifact.key .mirror events found := by
  obtain ⟨e₁,out,r₁,rfl,-,h⟩ := Program.Finishes.bind_cases h
  match out with
  | (.error e,left) => cases h
  | (.ok none,left) => cases h
  | (.ok (some received),left) =>
    obtain ⟨e₂,result,r₂,rfl,hpublish,h⟩ := Program.Finishes.bind_cases h
    cases result with
    | error e => cases h
    | ok found' =>
      cases h
      rw [List.append_nil]
      exact .prepend (publishReceived_fetches hpublish)

theorem fetchFromUpstream_fetches {source : Source} {budget left : Option ℕ} {found : List String × ℕ}
    (h : (ds.fetchFromUpstream H U artifact source budget).Finishes events (.ok found,left)) :
    Fetches artifact.key .upstream events found := by
  obtain ⟨e₁,out,r₁,rfl,-,h⟩ := Program.Finishes.bind_cases h
  match out with
  | (.error e,left) => cases h
  | (.ok none,left) => cases h
  | (.ok (some received),left) =>
    obtain ⟨e₂,result,r₂,rfl,hpublish,h⟩ := Program.Finishes.bind_cases h
    cases h
    rw [List.append_nil]
    exact .prepend (publishReceived_fetches hpublish)

theorem trySources_fetches (sources : List Source) :
    ∀ {index budget attempts events path outcome},
      (ds.trySources H U artifact sources index budget attempts).run.Finishes events (.ok (path,outcome)) →
      Fetches artifact.key outcome.layer events (path,outcome.bytes) := by
  induction sources with
  | nil => exact fun h => by cases h
  | cons source sources ih =>
    intro index budget attempts events path outcome h
    obtain ⟨e₁,out,r₁,rfl,hfetch,h⟩ := Program.Finishes.bind_cases h
    obtain ⟨r,left⟩ := out
    cases r with
    | ok found =>
      cases h
      rw [List.append_nil]
      exact fetchFromUpstream_fetches hfetch
    | error e =>
      simp only at h
      split at h
      · cases h
      · split at h
        · cases h
        · exact .prepend (ih h)

theorem fetchUpstream_fetches {reason : String} {budget : Option ℕ} {path : List String}
    {outcome : ResolveOutcome}
    (h : (ds.fetchUpstream H U artifact reason budget).run.Finishes events (.ok (path,outcome))) :
    Fetches artifact.key outcome.layer events (path,outcome.bytes) := by
  unfold Datastore.fetchUpstream at h
  split at h
  · cases h
  · split at h
    · cases h
    · exact trySources_fetches _ h

theorem fetchChain_fetches {budget : Option ℕ} {path : List String} {outcome : ResolveOutcome}
    (h : (ds.fetchChain H U artifact budget).run.Finishes events (.ok (path,outcome))) :
    Fetches artifact.key outcome.layer events (path,outcome.bytes) := by
  unfold Datastore.fetchChain at h
  split at h
  · exact fetchUpstream_fetches h
  · obtain ⟨e₁,out,r₁,rfl,hfetch,h⟩ := Program.Finishes.bind_cases h
    match out with
    | (.ok (some found),left) =>
      cases h
      rw [List.append_nil]
      exact fetchFromMirror_fetches hfetch
    | (.ok none,left) => exact .prepend (fetchUpstream_fetches h)
    | (.error e,left) =>
      simp only at h
      split at h
      · cases h
      · exact .prepend (fetchUpstream_fetches h)

/-- The end of an operation under a lock is the end of its body. -/
theorem withLock_finishes {name : String} {body : Op α} {a : α}
    (h : (withLock name body).run.Finishes events (.ok a)) :
    ∃ before inner r, events = before++(inner++[⟨.fs (.unlock name),r⟩]) ∧
      body.run.Finishes inner (.ok a) := by
  obtain ⟨e₁,_,r₁,rfl,-,h⟩ := h.bind_run_ok
  obtain ⟨e₂,result,r₂,rfl,hbody,h⟩ := Program.Finishes.bind_cases h
  cases h with
  | @call _ _ r _ _ tail =>
    cases tail
    exact ⟨e₁,e₂,r,rfl,hbody⟩

theorem Wrote.locked {key : ArtifactKey} {name : String} {r : Except IoError Unit} {before : List Event}
    (h : Wrote key entry events) : Wrote key entry (before++(events++[⟨.fs (.unlock name),r⟩])) := by
  refine .prepend (h.append fun e he m => ?_)
  obtain rfl := List.mem_singleton.mp he
  rfl

/-- A call of `get` that fetches publishes an entry for what it returns. -/
theorem getWithBudget_fetches {budget : Option ℕ} {path : List String} {outcome : ResolveOutcome}
    (hremote : outcome.layer ≠ .localDisk)
    (h : (ds.getWithBudget H U artifact budget).run.Finishes events (.ok (path,outcome))) :
    Fetches artifact.key outcome.layer events (path,outcome.bytes) := by
  rw [getWithBudget_eq] at h
  obtain ⟨before,inner,r,rfl,hbody⟩ := withLock_finishes h
  clear h
  obtain ⟨e₁,found,r₁,rfl,-,h⟩ := hbody.bind_run_ok
  match found with
  | some (path',entry) =>
    simp only at h
    split at h
    · cases h
    · cases h
      exact absurd rfl hremote
  | none =>
    simp only at h
    split at h
    · cases h
    · have hfetches : Fetches artifact.key outcome.layer (e₁++r₁) (path,outcome.bytes) :=
        (fetchChain_fetches h).prepend
      obtain ⟨entry,hregisters,hbytes,hlayer⟩ := hfetches
      exact ⟨entry,⟨hregisters.wrote.locked,hregisters.path⟩,hbytes,hlayer⟩

theorem importFile_registers {source : String} {path : List String}
    (h : (Datastore.importFile H artifact source).run.Finishes events (.ok path)) :
    ∃ entry, Registers artifact.key entry path events := by
  rw [importFile_eq] at h
  obtain ⟨before,inner,r,rfl,hbody⟩ := withLock_finishes h
  clear h
  obtain ⟨e₁,reads,r₁,rfl,-,h⟩ := hbody.bind_run_ok
  obtain ⟨e₂,received,r₂,rfl,-,h⟩ := h.bind_run_ok
  obtain ⟨e₃,found,r₃,rfl,-,h⟩ := h.bind_run_ok
  cases found with
  | none => cases h
  | some received =>
    obtain ⟨e₄,now,r₄,rfl,-,h⟩ := h.bind_run_ok
    have hregisters : Registers artifact.key _ path (e₁++(e₂++(e₃++(e₄++_)))) :=
      (publish_registers h).prepend.prepend.prepend.prepend
    exact ⟨_,hregisters.wrote.locked,hregisters.path⟩

end finishes

/-- Below `index/` there are sidecars of keys, and each names a blob; below `blobs/` every
name is a digest. -/
structure Orderly (w : World) : Prop where
  sidecar : ∀ path sidecar, w.index.lookup path = some sidecar → ∃ key entry,
    path = indexPath key ∧ sidecar = .parsed entry ∧ (w.blobs.lookup entry.digest).isSome
  blob : ∀ digest, (w.blobs.lookup digest).isSome → isDigest digest = true

/-- A thread that runs alone on an orderly store. -/
def orderly (t : ThreadId) : Setting Call Call.Ret World where
  step := Call.Does t
  rely := Eq
  guar w w' := Orderly w → Orderly w'
  rely_refl _ := rfl
  rely_trans := Eq.trans

section orderly
variable {H : Sha256} {U : UrlCrate} {ds : Datastore} {artifact : Artifact} {t : ThreadId} {w w' : World}

theorem Orderly.of_eq (h : Orderly w) (hb : w'.blobs = w.blobs) (hi : w'.index = w.index) :
    Orderly w' :=
  ⟨fun path sidecar hl => hb ▸ h.sidecar path sidecar (hi ▸ hl),
    fun digest hd => h.blob digest (hb ▸ hd)⟩

theorem orderly_fresh : Orderly .fresh := by
  refine ⟨fun path sidecar h => ?_,fun digest h => ?_⟩
  · cases h
  · cases h

theorem guarded_orderly : Guarded H False t (orderly t) where
  does h := h
  rely h := by
    subst h
    exact .refl t _
  guar h := fun ho => ho.of_eq (by rw [h.rest]) (by rw [h.rest])
  drops h := h.elim
  store h hs := by
    subst h
    exact ⟨hs,rfl,rfl⟩
  locking _ := fun ho => ho.of_eq rfl rfl
  unlocking _ := fun ho => ho.of_eq rfl rfl
  publishing {w tmp body} _ _ _ := by
    refine fun ho => ⟨fun path sidecar hl => ?_,fun digest hd => ?_⟩
    · obtain ⟨key,entry,rfl,rfl,hb⟩ := ho.sidecar path sidecar hl
      refine ⟨key,entry,rfl,rfl,?_⟩
      by_cases he : entry.digest = H.hex body
      · rw [he,AList.lookup_insert]
        rfl
      · simpa only [AList.lookup_insert_ne he] using hb
    · by_cases he : digest = H.hex body
      · exact he ▸ H.shape body
      · exact ho.blob digest (by simpa only [AList.lookup_insert_ne he] using hd)
  indexing {w key entry body} _ hb _ _ := by
    refine fun ho => ⟨fun path sidecar hl => ?_,ho.blob⟩
    by_cases hp : path = indexPath key
    · subst hp
      rw [AList.lookup_insert] at hl
      cases hl
      exact ⟨key,entry,rfl,rfl,by rw [hb]; rfl⟩
    · rw [AList.lookup_insert_ne hp] at hl
      exact ho.sidecar path sidecar hl
  unindexing {w path} _ := by
    refine fun ho => ⟨fun path' sidecar hl => ?_,ho.blob⟩
    by_cases hp : path' = path
    · rw [hp,AList.lookup_erase] at hl
      cases hl
    · rw [AList.lookup_erase_ne hp] at hl
      exact ho.sidecar path' sidecar hl
  unlinking {w digest} _ hd := by
    refine fun ho => ⟨fun path sidecar hl => ?_,fun digest' hd' => ?_⟩
    · obtain ⟨key,entry,rfl,rfl,hb⟩ := ho.sidecar path sidecar hl
      refine ⟨key,entry,rfl,rfl,?_⟩
      rwa [AList.lookup_erase_ne (hd key entry hl)]
    · by_cases he : digest' = digest
      · rw [he,AList.lookup_erase] at hd'
        cases hd'
      · exact ho.blob digest' (by rwa [AList.lookup_erase_ne he] at hd')

theorem importFile_orderly {source : String} {events : List Event} {out : Except DatastoreError (List String)}
    (h : (Datastore.importFile H artifact source).run.Runs (Call.Does t) w events out w')
    (ho : Orderly w) : Orderly w' :=
  (importFile_holds (guarded_orderly (t := t)) source empty_false).kept_of_runs (fun _ _ hg => hg) h ho

theorem getWithBudget_orderly {budget : Option ℕ} {events : List Event}
    {out : Except DatastoreError (List String × ResolveOutcome)}
    (h : (ds.getWithBudget H U artifact budget).run.Runs (Call.Does t) w events out w')
    (ho : Orderly w) : Orderly w' :=
  (getWithBudget_holds (guarded_orderly (t := t)) budget empty_false).kept_of_runs (fun _ _ hg => hg) h ho

theorem remove_orderly {key : ArtifactKey} {events : List Event} {out : Except DatastoreError Unit}
    (h : (ds.remove H key).run.Runs (Call.Does t) w events out w') (ho : Orderly w) : Orderly w' :=
  (remove_holds (guarded_orderly (t := t)) key empty_false).kept_of_runs (fun _ _ hg => hg) h ho

/-- Under the store lock a removal that succeeds leaves no sidecar. -/
theorem removing_clears (H : Sha256) (key : ArtifactKey) :
    (ds.removing key).run.Holds (orderly t) (fun out w' => out = .ok () →
      w'.index.lookup (indexPath key) = none) w := by
  have hE := guarded_orderly (H := H) (t := t)
  refine withLock_holds (A := fun _ => True) hE (fun _ _ _ _ => trivial) (fun _ _ _ _ => trivial)
    (fun out s s' hr hs => by cases hr; exact hs) (fun _ _ _ _ hs => hs) (fun _ _ _ h => by cases h)
    (fun s _ hlock => ?_) trivial
  have hs : Inside False t s.blobs s.index s := ⟨empty_false,hlock,rfl,rfl⟩
  refine Program.Holds.bind_run ((readEntry_holds hE ds.layout key hs).mono ?_)
  rintro out u ⟨hu,hfound⟩
  obtain e | found := out
  · exact fun h => by cases h
  cases found with
  | none =>
    rintro v rfl -
    rw [hu.locked.index]
    exact hfound none rfl
  | some entry =>
    refine holds_io_bind fun v hv r v' hstep => ?_
    cases hv
    have hg : (orderly t).guar u v' := by
      rcases hstep.unlinkSidecar with ⟨rfl,-⟩ | rfl
      · exact fun ho => ho
      · exact hE.unindexing hu.locked.store
    refine ⟨hg,?_⟩
    cases r with
    | error e => exact fun x _ h => by cases h
    | ok out =>
      have hclear : v'.index.lookup (indexPath key) = none := by
        have hindex := congrFun (Call.Does.index hstep) (indexPath key)
        rw [hindex]
        simp only [Event.index,Function.update_self]
      have hv' : Inside False t v'.blobs v'.index v' := by
        refine ⟨empty_false,?_,rfl,rfl⟩
        rcases hstep.unlinkSidecar with ⟨rfl,-⟩ | rfl
        · exact hu.locked.store
        · exact hu.locked.store
      refine Program.Holds.bind_run ((digestReferenced_holds hE _ hv').mono ?_)
      rintro out x ⟨hx,hd⟩
      obtain e | referenced := out
      · exact fun h => by cases h
      cases referenced with
      | true =>
        rintro y rfl -
        rw [hx.locked.index]
        exact hclear
      | false =>
        refine (removeBlob_holds hE (hd rfl) hx).mono ?_
        rintro out y ⟨blobs,hy⟩ -
        rw [hy.locked.index]
        exact hclear

theorem remove_clears {key : ArtifactKey} {events : List Event}
    (h : (ds.remove H key).run.Runs (Call.Does t) w events (.ok ()) w') :
    w'.index.lookup (indexPath key) = none := by
  have hholds : (ds.remove H key).run.Holds (orderly t) (fun out w' => out = .ok () →
      w'.index.lookup (indexPath key) = none) w :=
    withLock_holds (A := fun _ => True) (guarded_orderly (H := H)) (fun _ _ _ _ => trivial)
      (fun _ _ _ _ => trivial) (fun out s s' hr hs => by cases hr; exact hs) (fun _ _ _ _ hs => hs)
      (fun _ _ _ h => by cases h) (fun s _ _ => removing_clears H key) trivial
  exact hholds.of_runs h rfl

end orderly

/-- What is on disk is the map. -/
structure Catalogued (w : World) (m : ArtifactKey → Option IndexEntry) : Prop where
  orderly : Orderly w
  index : ∀ key, w.index.lookup (indexPath key) = (m key).map .parsed

section catalogued
variable {H : Sha256} {U : UrlCrate} {t : ThreadId} {w w' : World}
  {m : ArtifactKey → Option IndexEntry} {key : ArtifactKey}

/-- One key changes and the others do not. -/
theorem Catalogued.update {found : Option IndexEntry} (h : Catalogued w m) (ho : Orderly w')
    (hkey : w'.index.lookup (indexPath key) = found.map .parsed)
    (hothers : ∀ path, path ≠ indexPath key → w'.index.lookup path = w.index.lookup path) :
    Catalogued w' (Function.update m key found) := by
  refine ⟨ho,fun key' => ?_⟩
  by_cases hk : key' = key
  · subst key'
    rw [Function.update_self,hkey]
  · rw [Function.update_of_ne hk,hothers _ fun he => hk (indexPath_injective he),h.index]

theorem History.catalogued (h : History H U w m) : Catalogued w m := by
  induction h with
  | empty => exact ⟨orderly_fresh,fun _ => rfl⟩
  | @imported w m w' t artifact path events blob entry before run wrote ih =>
    refine ih.update (importFile_orderly run ih.orderly) ?_
      fun path hp => spared_of_runs (importFile_spares _ hp) run
    exact (congrFun (index_of_runs run) _).trans (wrote.replay _)
  | @fetched w m w' t artifact events blob outcome entry ds budget before run remote wrote ih =>
    refine ih.update (getWithBudget_orderly run ih.orderly) ?_
      fun path hp => spared_of_runs (getWithBudget_spares _ hp) run
    exact (congrFun (index_of_runs run) _).trans (wrote.replay _)
  | @removed w m w' t key events ds before run ih =>
    exact ih.update (remove_orderly run ih.orderly) (remove_clears run)
      fun path hp => spared_of_runs (remove_spares hp) run

/-- A filesystem step whose outcome is determined. -/
theorem total_works {α : Type} {c : FsCall} {f : Except IoError c.Out → Prog α} {Q : α → World → Prop}
    (r : Except IoError c.Out) [Nonempty c.Choice] (hstep : ∀ x, w.runFs t c x = some (r,w'))
    (h : (f r).Total (Call.Works t) Q w') : (fs c >>= f).Total (Call.Works t) Q w := by
  refine Program.Total.perform_bind ⟨r,w',Classical.arbitrary _,hstep _⟩ fun r' u hu => ?_
  obtain ⟨x,hx⟩ := hu
  have hx := (hstep x).symm.trans hx
  cases hx
  exact h

theorem total_works_io {α : Type} {c : FsCall} {f : c.Out → Op α} {Q : Except DatastoreError α → World → Prop}
    (r : Except IoError c.Out) [Nonempty c.Choice] (hstep : ∀ x, w.runFs t c x = some (r,w'))
    (h : match r with
      | .ok out => (f out).run.Total (Call.Works t) Q w'
      | .error e => Q (.error (.io e)) w') : (io c >>= f).run.Total (Call.Works t) Q w := by
  refine ⟨⟨r,w',Classical.arbitrary _,hstep _⟩,fun r' u hu => ?_⟩
  obtain ⟨x,hx⟩ := hu
  have hx := (hstep x).symm.trans hx
  cases hx
  cases r with
  | ok out => exact h
  | error e => exact h

/-- A sidecar is read as it is; where there is none, nothing is found. -/
theorem readEntry_found (h : Catalogued w m) (layout : Layout) :
    (layout.readEntry key).run.Total (Call.Works t) (fun out w' => w' = w ∧ match m key with
      | some entry => out = .ok (some entry)
      | none => ∀ entry, out ≠ .ok (some entry)) w := by
  have hindex := h.index key
  cases hm : m key with
  | some entry =>
    rw [hm] at hindex
    obtain ⟨key',entry',-,he,hb⟩ := h.orderly.sidecar _ _ hindex
    cases he
    refine total_works_io (.ok (some (.parsed entry))) (fun _ => by
      simp only [World.runFs,hindex]
      rfl) ?_
    simp only [h.orderly.blob _ hb,if_true]
    exact ⟨rfl,rfl⟩
  | none =>
    rw [hm,Option.map_none] at hindex
    have hread : ∃ r, (∀ x, w.runFs t (.readSidecar (indexPath key)) x = some (r,w)) ∧
        ∀ sidecar, r ≠ .ok (some sidecar) := by
      by_cases hdir : w.dirs (indexPath key) = true
      · exact ⟨.error World.isDirectory,fun _ => by simp only [World.runFs,hindex,hdir]; rfl,by simp⟩
      · by_cases hblocked : w.blocked (indexPath key) = true
        · exact ⟨.error World.notDirectory,fun _ => by
            simp only [World.runFs,hindex,hdir,hblocked]; rfl,by simp⟩
        · exact ⟨.ok none,fun _ => by simp only [World.runFs,hindex,hdir,hblocked]; rfl,by simp⟩
    obtain ⟨r,hstep,hr⟩ := hread
    refine total_works_io r hstep ?_
    cases r with
    | error e => exact ⟨rfl,by simp⟩
    | ok out =>
      cases out with
      | none => exact ⟨rfl,by simp⟩
      | some sidecar => exact absurd rfl (hr sidecar)

theorem isFile_found {digest : String} (h : (w.blobs.lookup digest).isSome = true) :
    (isFile digest).Total (Call.Works t) (fun out w' => out = true ∧ w' = w) w :=
  total_works (.ok true) (fun _ => by simp only [World.runFs,h]) ⟨rfl,rfl⟩

theorem entry_found (h : Catalogued w m) (ds : Datastore) :
    (ds.entry key).Total (Call.Works t) (fun out w' => out = m key ∧ w' = w) w := by
  refine Program.Total.bind ((readEntry_found h ds.layout).mono ?_)
  rintro out u ⟨rfl,hout⟩
  cases hm : m key with
  | some entry =>
    rw [hm] at hout
    subst hout
    obtain ⟨-,entry',-,he,hb⟩ := h.orderly.sidecar _ _ ((h.index key).trans (by rw [hm]; rfl))
    cases he
    refine Program.Total.bind ((isFile_found hb).mono ?_)
    rintro found v ⟨rfl,rfl⟩
    exact ⟨rfl,rfl⟩
  | none =>
    rw [hm] at hout
    match out with
    | .error e => exact ⟨rfl,rfl⟩
    | .ok none => exact ⟨rfl,rfl⟩
    | .ok (some entry) => exact absurd rfl (hout entry)

theorem peek_found (h : Catalogued w m) (ds : Datastore) :
    (ds.peek key).Total (Call.Works t)
      (fun out w' => out = (m key).map (fun entry => blobPath entry.digest) ∧ w' = w) w := by
  refine Program.Total.bind ((readEntry_found h ds.layout).mono ?_)
  rintro out u ⟨rfl,hout⟩
  cases hm : m key with
  | some entry =>
    rw [hm] at hout
    subst hout
    obtain ⟨-,entry',-,he,hb⟩ := h.orderly.sidecar _ _ ((h.index key).trans (by rw [hm]; rfl))
    cases he
    refine Program.Total.bind ((isFile_found hb).mono ?_)
    rintro found v ⟨rfl,rfl⟩
    exact ⟨rfl,rfl⟩
  | none =>
    rw [hm] at hout
    match out with
    | .error e => exact ⟨rfl,rfl⟩
    | .ok none => exact ⟨rfl,rfl⟩
    | .ok (some entry) => exact absurd rfl (hout entry)

/-- Where every file lies at the path of the key that it is listed as, no two are listed as
one key. -/
theorem nodup_listed (paths : List String)
    (hkeys : ∀ path ∈ paths, ∀ key, keyOfPath path = some key → path = indexPath key)
    (hnodup : paths.Nodup) : (paths.filterMap keyOfPath).Nodup := by
  induction paths with
  | nil => exact List.nodup_nil
  | cons path paths ih =>
    obtain ⟨hpath,hrest⟩ := List.nodup_cons.mp hnodup
    have ih := ih (fun p hp => hkeys p (by simp [hp])) hrest
    rw [List.filterMap_cons]
    cases hkey : keyOfPath path with
    | none => exact ih
    | some key =>
      refine List.nodup_cons.mpr ⟨fun hmem => ?_,ih⟩
      obtain ⟨path',hpath',hkey'⟩ := List.mem_filterMap.mp hmem
      obtain rfl := hkeys path (by simp) key hkey
      obtain rfl := hkeys path' (by simp [hpath']) key hkey'
      exact hpath hpath'

theorem keys_found (h : Catalogued w m) :
    Datastore.keys.run.Total (Call.Works t) (fun out w' => w' = w ∧ ∃ keys, out = .ok keys ∧
      keys.Pairwise (fun a b => a.text ≤ b.text) ∧ keys.Nodup ∧ ∀ key, key ∈ keys ↔ (m key).isSome) w := by
  have hlisted : ∀ path ∈ w.index.keys, ∃ key, path = indexPath key := by
    intro path hpath
    obtain ⟨sidecar,hs⟩ := Option.isSome_iff_exists.mp (AList.lookup_isSome.mpr hpath)
    obtain ⟨key,-,hkey,-⟩ := h.orderly.sidecar _ _ hs
    exact ⟨key,hkey⟩
  have : Std.Total fun a b : ArtifactKey => a.text ≤ b.text := ⟨fun a b => le_total a.text b.text⟩
  have : IsTrans ArtifactKey fun a b => a.text ≤ b.text := ⟨fun _ _ _ => le_trans⟩
  refine total_works_io (.ok w.index.keys) (fun _ => rfl) ⟨rfl,_,rfl,?_,?_,fun key => ?_⟩
  · exact List.pairwise_insertionSort _ _
  · refine (List.perm_insertionSort _ _).nodup_iff.mpr (nodup_listed _ (fun path hpath key hkey => ?_)
      w.index.nodupKeys)
    obtain ⟨key',rfl⟩ := hlisted path hpath
    rw [keyOfPath_indexPath] at hkey
    cases hkey
    rfl
  · rw [(List.perm_insertionSort _ _).mem_iff,List.mem_filterMap]
    constructor
    · rintro ⟨path,hpath,hkey⟩
      obtain ⟨key',rfl⟩ := hlisted path hpath
      rw [keyOfPath_indexPath] at hkey
      cases hkey
      have hsome := AList.lookup_isSome.mpr hpath
      rw [h.index,Option.isSome_map] at hsome
      exact hsome
    · intro hsome
      refine ⟨indexPath key,AList.lookup_isSome.mp ?_,keyOfPath_indexPath key⟩
      rw [h.index,Option.isSome_map]
      exact hsome

/-- Over any history of operations that succeeded the index is the map of what was last
published. Every publication extends the history, no operation touches the entry of
another key, and all paths stay strictly inside `index/` and `blobs/`. -/
theorem history_refines (h : History H U w m) :
    (∀ t, Datastore.keys.run.Total (Call.Works t) (fun out w' => w' = w ∧ ∃ keys, out = .ok keys ∧
      keys.Pairwise (fun a b => a.text ≤ b.text) ∧ keys.Nodup ∧ ∀ key, key ∈ keys ↔ (m key).isSome) w) ∧
    (∀ t ds key, (Datastore.entry ds key).Total (Call.Works t) (fun out w' => out = m key ∧ w' = w) w) ∧
    (∀ t ds key, (Datastore.peek ds key).Total (Call.Works t)
      (fun out w' => out = (m key).map (fun entry => blobPath entry.digest) ∧ w' = w) w) ∧
    (∀ path, (w.index.lookup path).isSome → Contained (path.toList.splitOn '/')) ∧
    (∀ digest, (w.blobs.lookup digest).isSome → ∃ shard name,
      blobPath digest = ["blobs",shard,name] ∧ Contained [shard.toList,name.toList]) ∧
    (∀ t artifact source events out w',
      (Datastore.importFile H artifact source).run.Runs (Call.Does t) w events out w' →
      (∀ key, key ≠ artifact.key → w'.index.lookup (indexPath key) = w.index.lookup (indexPath key)) ∧
      ∀ blob, out = .ok blob → ∃ entry, blob = blobPath entry.digest ∧
        History H U w' (Function.update m artifact.key (some entry))) ∧
    (∀ t ds artifact budget events out w',
      (Datastore.getWithBudget H U ds artifact budget).run.Runs (Call.Does t) w events out w' →
      (∀ key, key ≠ artifact.key → w'.index.lookup (indexPath key) = w.index.lookup (indexPath key)) ∧
      ∀ blob outcome, out = .ok (blob,outcome) → outcome.layer ≠ .localDisk → ∃ entry,
        blob = blobPath entry.digest ∧ entry.bytes = outcome.bytes ∧ entry.layer = outcome.layer ∧
        History H U w' (Function.update m artifact.key (some entry))) ∧
    ∀ t ds key events out w', (Datastore.remove H ds key).run.Runs (Call.Does t) w events out w' →
      ∀ key', key' ≠ key → w'.index.lookup (indexPath key') = w.index.lookup (indexPath key') := by
  have hw := h.catalogued
  refine ⟨fun t => keys_found hw,fun t ds key => entry_found hw ds,fun t ds key => peek_found hw ds,
    fun path hpath => ?_,fun digest hd => blobPath_proper (hw.orderly.blob digest hd),?_,?_,?_⟩
  · obtain ⟨sidecar,hs⟩ := Option.isSome_iff_exists.mp hpath
    obtain ⟨key,-,rfl,-⟩ := hw.orderly.sidecar _ _ hs
    exact indexPath_proper key
  · intro t artifact source events out w' hr
    refine ⟨fun key hk => ?_,fun blob hb => ?_⟩
    · exact spared_of_runs (importFile_spares source fun he => hk (indexPath_injective he)) hr
    · subst hb
      obtain ⟨entry,hregisters⟩ := importFile_registers hr.finishes
      exact ⟨entry,hregisters.path,.imported h hr hregisters.wrote⟩
  · intro t ds artifact budget events out w' hr
    refine ⟨fun key hk => ?_,fun blob outcome hb hremote => ?_⟩
    · exact spared_of_runs (getWithBudget_spares budget fun he => hk (indexPath_injective he)) hr
    · subst hb
      obtain ⟨entry,hregisters,hbytes,hlayer⟩ := getWithBudget_fetches hremote hr.finishes
      exact ⟨entry,hregisters.path,hbytes,hlayer,.fetched h hr hremote hregisters.wrote⟩
  · intro t ds key events out w' hr key' hk
    exact spared_of_runs (remove_spares fun he => hk (indexPath_injective he)) hr

/-- One import into an empty store. -/
theorem history_refines_imported : ∃ w entry,
    History .sample (twoHosts "a.com" "b.org") w
      (Function.update (fun _ => none) Artifact.sample.key (some entry)) ∧
    ∀ t ds key, (Datastore.entry ds key).Total (Call.Works t) (fun out w' =>
      out = Function.update (fun _ => none) Artifact.sample.key (some entry) key ∧ w' = w) w := by
  have hr : ∃ events blob w', (Datastore.importFile .sample .sample "/abc").run.Runs (Call.Does 0)
      .fresh events (.ok blob) w' :=
    ⟨_,_,_,.call (.inl ⟨(),rfl⟩) (.call (.inl ⟨1,rfl⟩) (.call (.inl ⟨(0 : ℕ),rfl⟩)
      (.call (.inl ⟨[0x61,0x62,0x63],rfl⟩) (.call (.inl ⟨(),rfl⟩) (.call (.inl ⟨7,rfl⟩)
      (.call (.inl ⟨(),rfl⟩) (.call (.inl ⟨(),rfl⟩) (.call (.inl ⟨(),rfl⟩) (.call (.inl ⟨(),rfl⟩)
      (.call (.inl ⟨(),rfl⟩) (.call (.inl ⟨(),rfl⟩) (.call (.inl ⟨(),rfl⟩) (.call (.inl ⟨(),rfl⟩)
      (.call (.inl ⟨(),rfl⟩) (.call (.inl ⟨(),rfl⟩) (.call (.inl ⟨(),rfl⟩) (.call (.inl ⟨(),rfl⟩)
      (.call (.inl ⟨(),rfl⟩) (.done _ _)))))))))))))))))))⟩
  obtain ⟨events,blob,w',hr⟩ := hr
  obtain ⟨-,-,-,-,-,himport,-⟩ := history_refines (.empty (H := .sample) (U := twoHosts "a.com" "b.org"))
  obtain ⟨entry,-,hhistory⟩ := (himport 0 .sample "/abc" events _ w' hr).2 blob rfl
  obtain ⟨-,hentry,-⟩ := history_refines hhistory
  exact ⟨w',entry,hhistory,hentry⟩

end catalogued
end StarfieldDatastore
