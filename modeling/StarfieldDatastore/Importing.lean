import StarfieldDatastore.Publication
import StarfieldDatastore.Removal

/-! Importing a file into a store that nobody else works on. -/
namespace StarfieldDatastore
open Interleaving

def Call.importing : Call → Bool
  | .fs (.openImport _) => true
  | .fs .readImport => true
  | _ => false

/-- A filesystem without faults, and a file with the given chunks that can be imported. Beside
the world stands what is left to read of it. -/
inductive Call.Copies (t : ThreadId) (chunks : List Bytes) :
    (c : Call) → World × List Bytes → c.Ret → World × List Bytes → Prop
  | disk {c w r w' left} (h : c.importing = false) (step : c.Works t w r w') :
      Copies t chunks c (w,left) r (w',left)
  | opened {path w left reads} (h : chunks.length < reads) :
      Copies t chunks (.fs (.openImport path)) (w,left) (.ok reads) (w,chunks)
  | read {w chunk rest} : Copies t chunks (.fs .readImport) (w,chunk :: rest) (.ok chunk) (w,rest)
  | ended {w} : Copies t chunks (.fs .readImport) (w,[]) (.ok []) (w,[])

section importing
variable {H : Sha256} {t : ThreadId} {w : World} {chunks : List Bytes} {artifact : Artifact} {α : Type}

theorem copies_disk {p : Prog α} {Q : α → World → Prop} {left : List Bytes}
    (hp : p.Only fun c => c.importing = false) (h : p.Total (Call.Works t) Q w) :
    p.Total (Call.Copies t chunks) (fun a u => Q a u.1 ∧ u.2 = left) (w,left) := by
  refine Program.Total.beside hp (fun c hc s r u => ?_) h
  constructor
  · intro hstep
    cases hstep with
    | disk _ step => exact ⟨step,rfl⟩
    | _ => cases hc
  · rintro ⟨hstep,rfl⟩
    exact .disk hc hstep

theorem copies_beside : Beside t (fun c => c.importing = false) (Call.Copies t chunks) :=
  fun _ _ _ _ _ hp h => copies_disk hp (total_worked h)

/-- The file is read to its end. -/
theorem import_stream (reads : ℕ) : ∀ {left : List Bytes}, [] ∉ left → left.length < reads →
    Stream (Call.Copies t chunks) (fun _ => True) readImport reads left left (.ok ()) := by
  induction reads with
  | zero => exact fun _ h => absurd h (by omega)
  | succ reads ih =>
    intro left hne hlen
    cases left with
    | nil =>
      have hread : ReadsAs (Call.Copies t chunks) readImport [] (.ok none) [] := by
        refine fun w => ⟨⟨_,_,.ended⟩,fun r u hu => ?_⟩
        cases hu with
        | disk h _ => cases h
        | ended => exact ⟨rfl,rfl⟩
      exact .ended hread trivial
    | cons chunk rest =>
      have hchunk : chunk ≠ [] := fun he => hne (he ▸ List.mem_cons_self ..)
      have hread : ReadsAs (Call.Copies t chunks) readImport (chunk :: rest) (.ok (some chunk)) rest := by
        refine fun w => ⟨⟨_,_,.read⟩,fun r u hu => ?_⟩
        cases hu with
        | disk h _ => cases h
        | read =>
          refine ⟨?_,rfl⟩
          cases chunk with
          | nil => exact absurd rfl hchunk
          | cons b chunk => rfl
      exact .chunk hread trivial (ih (fun h => hne (List.mem_cons_of_mem _ h)) (by simpa using hlen))

theorem publish_copies {tmp : ℕ} {entry : IndexEntry} :
    (publish H artifact tmp entry).run.Only fun c => c.importing = false := by
  refine (publish_publishing tmp).mono fun c hc => ?_
  cases c with
  | fs c => cases c <;> first | rfl | cases hc
  | net c => rfl
  | cache c => rfl

/-- The producer of an import, on a file that is read to its end. -/
theorem import_poured {tmp reads : ℕ} {u : World} (hne : [] ∉ chunks) (hreads : chunks.length < reads)
    (h : Receiver.Filling t w tmp (.new tmp artifact.check none) u) :
    (do
      match ← copy H readImport reads (.new tmp artifact.check none) with
      | (.error e,rcv) => return (.error e,rcv)
      | (.ok (),rcv) => return (.ok (some ()),rcv) : Prog (Except DatastoreError (Option Unit) × Receiver)).Total
        (Call.Copies t chunks) (fun out v => Poured H t w artifact.check tmp chunks.flatten (.ok (some ())) out v.1 ∧
          True) (u,chunks) := by
  refine Program.Total.bind ((copy_poured copies_beside (fun _ _ => rfl) (import_stream _ hne hreads)
    Receiver.seen_new h).mono ?_)
  rintro ⟨out,rcv⟩ ⟨v,left⟩ ⟨hv,-⟩
  cases hv with
  | all seen filling hashed => exact ⟨.all seen filling (hashed.trans (List.nil_append _)),trivial⟩
  | refused refused untouched file => exact ⟨.refused refused untouched file,trivial⟩

/-- However an import ends, it is a publication of what the file holds. -/
theorem importFile_ends (path : String) (hne : [] ∉ chunks) {left : List Bytes}
    (hkey : w.locks (Layout.keyLockName H artifact.key) = none) (hstore : w.locks Layout.storeLockName = none) :
    (Datastore.importFile H artifact path).run.Total (Call.Copies t chunks) (fun out u =>
      ∃ entry, entry.digest = H.hex chunks.flatten ∧ entry.bytes = chunks.flatten.length ∧
        PublishEnds H artifact chunks.flatten entry w out u.1) (w,left) := by
  have hheld : (w.setLock (Layout.keyLockName H artifact.key) (some t)).locks
      (Layout.keyLockName H artifact.key) = some t := by simp only [World.setLock,Function.update_self]
  have hfree : (w.setLock (Layout.keyLockName H artifact.key) (some t)).locks Layout.storeLockName = none :=
    (Function.update_of_ne (keyLockName_ne H artifact.key).symm _ _).trans hstore
  refine beside_withLock copies_beside (fun _ => rfl) (fun _ => rfl) (Q := fun out u => ∃ entry, entry.digest = H.hex chunks.flatten ∧
    entry.bytes = chunks.flatten.length ∧ PublishEnds H artifact chunks.flatten entry w out u) hkey ?_
  have ends : ∀ {out v} (entry : IndexEntry), entry.digest = H.hex chunks.flatten →
      entry.bytes = chunks.flatten.length → PublishEnds H artifact chunks.flatten entry
        (w.setLock (Layout.keyLockName H artifact.key) (some t)) out v →
      v.locks (Layout.keyLockName H artifact.key) = some t ∧ ∃ entry, entry.digest = H.hex chunks.flatten ∧
        entry.bytes = chunks.flatten.length ∧ PublishEnds H artifact chunks.flatten entry w out
          (v.setLock (Layout.keyLockName H artifact.key) none) :=
    fun _ hdigest hbytes h => ⟨(congrFun h.locks _).trans hheld,_,hdigest,hbytes,h.outside hkey⟩
  refine ⟨⟨.ok (chunks.length+1),_,.opened (by omega)⟩,fun r u hu => ?_⟩
  cases hu with
  | disk h _ => cases h
  | opened hreads =>
    refine Program.Total.bind_run (Program.Total.lift ((receive_gained (I := fun _ => True) copies_beside (fun _ => rfl) (copies_beside _ _ _ _ _ (.perform rfl) (createTmp_total artifact.check))
        fun tmp u hu => import_poured hne hreads hu).mono ?_))
    rintro ⟨out,budget⟩ ⟨v,left⟩ ⟨hv,-⟩
    dsimp only at hv
    cases hv with
    | nothing result _ => cases result
    | failed result _ => cases result
    | refused untouched failed _ =>
      have hunwanted : ¬ artifact.Wants H chunks.flatten := fun h =>
        failed (ContentCheck.checkPrefix_of_accepts _ h.2)
      exact ends ⟨H.hex chunks.flatten,chunks.flatten.length,0,none,none,none,.localDisk⟩ rfl rfl
        (.rejected hunwanted untouched)
    | @whole received _ _ untouched file digest bytes =>
      have hpublish : ∀ time : ℕ, (publish H artifact received.tmp
          { IndexEntry.new received.digest received.bytes time .localDisk with
            source := some "local:import" }).run.Total (Call.Works t) (PublishEnds H artifact chunks.flatten
              { IndexEntry.new received.digest received.bytes time .localDisk with source := some "local:import" }
              (w.setLock (Layout.keyLockName H artifact.key) (some t))) v :=
        fun time => publish_ends untouched file hfree digest bytes
      have hnow : nowUnix.Total (Call.Works t) (fun _ u => u = v) v := by
        constructor
        · exact ⟨.ok 0,v,0,rfl⟩
        · rintro r u ⟨x,hx⟩
          cases hx
          rfl
      apply Program.Total.bind_run
      show Program.Total _ (ExceptT.run (liftM nowUnix >>= _)) _ _
      refine Program.Total.bind_run (Program.Total.lift ((copies_disk (nowUnix_only rfl) hnow).mono ?_))
      rintro time ⟨x,left'⟩ ⟨rfl,rfl⟩
      refine (copies_disk publish_copies (hpublish time)).mono ?_
      rintro out ⟨y,rest⟩ ⟨hy,-⟩
      exact ends _ digest bytes hy

end importing
end StarfieldDatastore
