import StarfieldDatastore.Steps
import StarfieldDatastore.Interleaving.RelyGuarantee

/-! Settings in which a thread has its temporary files to itself. The sequential setting
is one; so is a thread among the others that share the cache root. -/
namespace StarfieldDatastore
open Interleaving

section calls
variable {E : Setting Call Call.Ret World} {α : Type} {w : World} {c : FsCall}

/-- A filesystem step that ends an operation. -/
theorem holds_io {Q : Except DatastoreError c.Out → World → Prop}
    (h : ∀ u, E.rely w u → ∀ r v, E.step (.fs c) u r v →
      E.guar u v ∧ ∀ v', E.rely v v' → Q (r.mapError .io) v') : (io c).run.Holds E Q w := h

/-- A filesystem step followed by `?`: an error ends the operation. -/
theorem holds_io_bind {f : c.Out → Op α} {Q : Except DatastoreError α → World → Prop}
    (h : ∀ u, E.rely w u → ∀ r v, E.step (.fs c) u r v → E.guar u v ∧ match r with
      | .ok a => (f a).run.Holds E Q v
      | .error e => ∀ v', E.rely v v' → Q (.error (.io e)) v') :
    (io c >>= f).run.Holds E Q w := by
  intro u hu r v hv
  obtain ⟨hg,hr⟩ := h u hu r v hv
  refine ⟨hg,?_⟩
  cases r with
  | ok a => exact hr
  | error e => exact hr

end calls

/-- The files that thread `t` has open under `tmp/` are the same. -/
def SameTmp (t : ThreadId) (w w' : World) : Prop :=
  ∀ id file, file.owner = t → (w'.tmp.lookup id = some file ↔ w.tmp.lookup id = some file)

/-- A step of thread `t` on its own temporary files, which nobody else looks at. -/
structure PrivateStep (t : ThreadId) (w w' : World) : Prop where
  rest : w' = { w with dirs := w'.dirs, tmp := w'.tmp, written := w'.written }
  others : ∀ u, u ≠ t → SameTmp u w w'
  counted : ∀ u, u ≠ t → w'.written u = w.written u

/-- Thread `t` steps as the system does, the others leave its temporary files alone, and
private steps are promised to nobody. When `tidy`, dropping a file always succeeds. -/
structure Sheltered (tidy : Prop) (t : ThreadId) (E : Setting Call Call.Ret World) : Prop where
  does : ∀ {c w r w'}, E.step c w r w' → c.Does t w r w'
  rely : ∀ {w w'}, E.rely w w' → SameTmp t w w'
  guar : ∀ {w w'}, PrivateStep t w w' → E.guar w w'
  drops : tidy → ∀ {tmp w e w'}, ¬ E.step (.fs (.dropTmp tmp)) w (.error e) w'

/-- Thread `t` has one temporary file with this content, and, if it tidies up, no other. -/
structure Holding (tidy : Prop) (t : ThreadId) (id : ℕ) (content : Bytes) (w : World) : Prop where
  file : w.tmp.lookup id = some ⟨t,content⟩
  only : tidy → ∀ id' file, w.tmp.lookup id' = some file → file.owner = t → id' = id

/-- If thread `t` tidies up, it has no temporary file. -/
def Empty (tidy : Prop) (t : ThreadId) (w : World) : Prop :=
  tidy → ∀ id file, w.tmp.lookup id = some file → file.owner ≠ t

namespace SameTmp
variable {t : ThreadId} {w w' : World}

theorem refl (t : ThreadId) (w : World) : SameTmp t w w := fun _ _ _ => Iff.rfl

theorem trans {w'' : World} (h : SameTmp t w w') (h' : SameTmp t w' w'') : SameTmp t w w'' :=
  fun id file ho => (h' id file ho).trans (h id file ho)

theorem of_eq (h : w'.tmp = w.tmp) : SameTmp t w w' := fun _ _ _ => by rw [h]

/-- Another thread's file appearing, changing or going away. -/
theorem insert {u id : ℕ} (file : TmpFile) (hu : u ≠ t) (hnew : file.owner = t)
    (hold : ∀ old, w.tmp.lookup id = some old → old.owner = t)
    (h : w'.tmp = w.tmp.insert id file) : SameTmp u w w' := by
  intro id' file' ho
  by_cases hid : id' = id
  · subst id'
    rw [h,AList.lookup_insert]
    constructor
    · intro he
      cases he
      exact absurd (ho.symm.trans hnew) hu
    · intro he
      exact absurd (ho.symm.trans (hold file' he)) hu
  · rw [h,AList.lookup_insert_ne hid]

theorem erase {u id : ℕ} (hu : u ≠ t)
    (hold : ∀ old, w.tmp.lookup id = some old → old.owner = t)
    (h : w'.tmp = w.tmp.erase id) : SameTmp u w w' := by
  intro id' file' ho
  by_cases hid : id' = id
  · subst id'
    rw [h,AList.lookup_erase]
    constructor
    · intro he
      cases he
    · intro he
      exact absurd (ho.symm.trans (hold file' he)) hu
  · rw [h,AList.lookup_erase_ne hid]

end SameTmp

namespace Holding
variable {tidy : Prop} {t : ThreadId} {id : ℕ} {content : Bytes} {w w' : World}

theorem stable (h : Holding tidy t id content w) (hw : SameTmp t w w') :
    Holding tidy t id content w' :=
  ⟨(hw id _ rfl).mpr h.file,fun ht id' file hl ho => h.only ht id' file ((hw id' file ho).mp hl) ho⟩

theorem owned (h : Holding tidy t id content w) :
    ∀ old, w.tmp.lookup id = some old → old.owner = t := by
  intro old ho
  rw [h.file] at ho
  cases ho
  rfl

theorem of_insert {old : Bytes} (h : Holding tidy t id old w)
    (hw : w'.tmp = w.tmp.insert id ⟨t,content⟩) : Holding tidy t id content w' := by
  refine ⟨by rw [hw,AList.lookup_insert],fun ht id' file hl ho => ?_⟩
  by_contra hid
  rw [hw,AList.lookup_insert_ne hid] at hl
  exact hid (h.only ht id' file hl ho)

theorem of_erase (h : Holding tidy t id content w) (hw : w'.tmp = w.tmp.erase id) :
    Empty tidy t w' := by
  intro ht id' file hl ho
  by_cases hid : id' = id
  · rw [hw,hid,AList.lookup_erase] at hl
    cases hl
  · rw [hw,AList.lookup_erase_ne hid] at hl
    exact hid (h.only ht id' file hl ho)

end Holding

theorem Empty.stable {tidy : Prop} {t : ThreadId} {w w' : World} (h : Empty tidy t w)
    (hw : SameTmp t w w') : Empty tidy t w' :=
  fun ht id file hl ho => h ht id file ((hw id file ho).mp hl) ho

theorem PrivateStep.refl (t : ThreadId) (w : World) : PrivateStep t w w :=
  ⟨rfl,fun _ _ => .refl _ w,fun _ _ => rfl⟩

namespace Sheltered
variable {tidy : Prop} {t : ThreadId} {E : Setting Call Call.Ret World} {w w' : World}

theorem readOnly (hE : Sheltered tidy t E) {c : Call} {r : c.Ret} (hc : c.readOnly = true)
    (h : E.step c w r w') : E.guar w w' ∧ w' = w := by
  have hw := (hE.does h).readOnly hc
  subst hw
  exact ⟨hE.guar (.refl t _),rfl⟩

/-- A program that only reads keeps whatever the others keep. -/
theorem holds_readOnly {α : Type} (hE : Sheltered tidy t E) {p : Prog α} {A : World → Prop}
    (hp : p.Only fun c => c.readOnly = true) (hA : ∀ s s', E.rely s s' → A s → A s')
    (hw : A w) : p.Holds E (fun _ s => A s) w :=
  .of_only hp hA (fun c s r s' hc hs h => by
    obtain ⟨hg,rfl⟩ := hE.readOnly hc h
    exact ⟨hg,hs⟩) hw

theorem createTmp (hE : Sheltered tidy t E) {r : Except IoError ℕ} (hw : Empty tidy t w)
    (h : E.step (.fs .createTmp) w r w') :
    E.guar w w' ∧ match r with
      | .ok id => Holding tidy t id [] w'
      | .error _ => Empty tidy t w' := by
  cases r with
  | error e =>
    have he := (hE.does h).error (by simp)
    subst he
    exact ⟨hE.guar (.refl t _),hw⟩
  | ok id =>
    obtain ⟨hn,rfl⟩ := (hE.does h).createTmp
    refine ⟨hE.guar ⟨rfl,fun u hu => .insert ⟨t,[]⟩ hu rfl ?_ rfl,fun _ _ => rfl⟩,?_,?_⟩
    · intro old ho
      rw [hn] at ho
      cases ho
    · exact AList.lookup_insert _
    · intro ht id' file hl ho
      by_contra hid
      rw [AList.lookup_insert_ne hid] at hl
      exact hw ht id' file hl ho

theorem append_private {id : ℕ} {content buf : Bytes} (hw : Holding tidy t id content w) :
    PrivateStep t w (w.append t id ⟨t,content⟩ buf) :=
  ⟨rfl,fun _ hu => .insert ⟨t,content++buf⟩ hu rfl hw.owned rfl,
    fun _ hu => Function.update_of_ne hu _ _⟩

/-- A failed append may have written part of the chunk. -/
theorem appendTmp (hE : Sheltered tidy t E) {id : ℕ} {content buf : Bytes} {r : Except IoError Unit}
    (hw : Holding tidy t id content w) (h : E.step (.fs (.appendTmp id buf)) w r w') :
    E.guar w w' ∧ match r with
      | .ok () => Holding tidy t id (content++buf) w'
      | .error _ => ∃ content', Holding tidy t id content' w' := by
  cases r with
  | ok out =>
    obtain ⟨file,hl,rfl⟩ := (hE.does h).appendTmp
    rw [hw.file] at hl
    cases hl
    exact ⟨hE.guar (append_private hw),hw.of_insert rfl⟩
  | error e =>
    rcases (hE.does h).appendTmp_error with rfl | ⟨file,n,hl,rfl⟩
    · exact ⟨hE.guar (.refl t _),content,hw⟩
    · rw [hw.file] at hl
      cases hl
      exact ⟨hE.guar (append_private hw),_,hw.of_insert rfl⟩

theorem dropTmp (hE : Sheltered tidy t E) {id : ℕ} {content : Bytes} {r : Except IoError Unit}
    (hw : Holding tidy t id content w) (h : E.step (.fs (.dropTmp id)) w r w') :
    E.guar w w' ∧ Empty tidy t w' := by
  rcases (hE.does h).dropTmp with rfl | ⟨rfl,e,rfl⟩
  · exact ⟨hE.guar ⟨rfl,fun u hu => .erase hu hw.owned rfl,fun _ _ => rfl⟩,hw.of_erase rfl⟩
  · exact ⟨hE.guar (.refl t _),fun ht => absurd h (hE.drops ht)⟩

end Sheltered
end StarfieldDatastore
