import StarfieldDatastore.Removal
import StarfieldDatastore.Weight

/-! `gc` with nobody else around, in a cache whose filesystem works: which keys it removes
and what it leaves. -/
namespace StarfieldDatastore
open Interleaving

theorem pairwise_orderedInsert {α : Type} {R : α → α → Prop} (f : α → ℕ) (a : α) {l : List α}
    (h : l.Pairwise fun a b => f a < f b ∨ f a = f b ∧ R a b) (ha : ∀ b ∈ l, R a b) :
    (l.orderedInsert (fun a b => f a ≤ f b) a).Pairwise fun a b => f a < f b ∨ f a = f b ∧ R a b := by
  induction l with
  | nil => exact List.pairwise_singleton _ _
  | cons b l ih =>
    obtain ⟨hb,hl⟩ := List.pairwise_cons.mp h
    rw [List.orderedInsert]
    split
    · rename_i hle
      refine List.pairwise_cons.mpr ⟨fun c hc => ?_,h⟩
      have hbc : f b ≤ f c := by
        rcases List.mem_cons.mp hc with rfl | hc
        · exact le_rfl
        · rcases hb c hc with hlt | ⟨he,-⟩ <;> omega
      rcases Nat.lt_or_eq_of_le (hle.trans hbc) with hlt | he
      · exact .inl hlt
      · exact .inr ⟨he,ha c hc⟩
    · rename_i hle
      refine List.pairwise_cons.mpr ⟨fun c hc => ?_,ih hl fun c hc => ha c (by simp [hc])⟩
      rcases List.mem_cons.mp ((List.perm_orderedInsert _ a l).mem_iff.mp hc) with rfl | hc
      · exact .inl (by omega)
      · exact hb c hc

/-- Sorting is stable: it orders by `f`, and what has the same `f` stays in order. -/
theorem pairwise_insertionSort {α : Type} {R : α → α → Prop} (f : α → ℕ) {l : List α} (h : l.Pairwise R) :
    (l.insertionSort fun a b => f a ≤ f b).Pairwise fun a b => f a < f b ∨ f a = f b ∧ R a b := by
  induction l with
  | nil => exact .nil
  | cons a l ih =>
    obtain ⟨ha,hl⟩ := List.pairwise_cons.mp h
    exact pairwise_orderedInsert f a (ih hl) fun b hb => ha b ((List.perm_insertionSort _ l).mem_iff.mp hb)

theorem eraseDups_sublist {α : Type} [BEq α] (l : List α) : l.eraseDups.Sublist l := by
  induction hn : l.length using Nat.strong_induction_on generalizing l with
  | _ n ih =>
    cases l with
    | nil => exact .slnil
    | cons a l =>
      rw [List.eraseDups_cons]
      have hlen : (l.filter fun b => !b == a).length < n := by
        rw [← hn]
        exact Nat.lt_succ_of_le (List.length_filter_le _ _)
      exact ((ih _ hlen _ rfl).trans List.filter_sublist).cons_cons a

/-- What is related to everything later, or the same, is related to what remains later. -/
theorem pairwise_eraseDups {α : Type} [BEq α] [ReflBEq α] {R S : α → α → Prop} {l : List α} (h : l.Pairwise R)
    (hRS : ∀ a b, a ∈ l → b ∈ l → R a b → a ≠ b → S a b) : l.eraseDups.Pairwise S := by
  induction hn : l.length using Nat.strong_induction_on generalizing l with
  | _ n ih =>
    cases l with
    | nil => exact .nil
    | cons a l =>
      obtain ⟨ha,hl⟩ := List.pairwise_cons.mp h
      rw [List.eraseDups_cons]
      have hlen : (l.filter fun b => !b == a).length < n := by
        rw [← hn]
        exact Nat.lt_succ_of_le (List.length_filter_le _ _)
      refine List.pairwise_cons.mpr ⟨fun b hb => ?_,ih _ hlen (hl.filter _) (fun b c hb hc => ?_) rfl⟩
      · have hb := (eraseDups_sublist _).subset hb
        obtain ⟨hb,hne⟩ := List.mem_filter.mp hb
        exact hRS a b (List.mem_cons_self ..) (List.mem_cons_of_mem _ hb) (ha b hb)
          fun he => by simp [he] at hne
      · exact hRS b c (List.mem_cons_of_mem _ (List.mem_filter.mp hb).1)
          (List.mem_cons_of_mem _ (List.mem_filter.mp hc).1)

/-- The order in which keys are evicted. -/
def Earlier (a b : ArtifactKey × IndexEntry) : Prop :=
  a.2.fetchedAt < b.2.fetchedAt ∨ a.2.fetchedAt = b.2.fetchedAt ∧ a.1.text < b.1.text

namespace World

/-- The keys that have a sidecar, in the order in which they are evicted. -/
def oldest (w : World) : List (ArtifactKey × IndexEntry) :=
  (w.catalogue.insertionSort fun a b => a.2.fetchedAt ≤ b.2.fetchedAt).eraseDups

/-- Some sidecar names this blob, other than those of the keys that are gone. -/
def named (w : World) (gone : List ArtifactKey) (digest : String) : Bool :=
  w.catalogue.any fun e => e.1 ∉ gone ∧ e.2.digest = digest

/-- The total length of the blobs that are still named. -/
def namedBytes (w : World) (gone : List ArtifactKey) : ℕ :=
  w.blobs.weight fun e => if w.named gone e.1 then e.2.length else 0

end World

/-- A file is not a directory, and no file lies above it. -/
def Treelike (w : World) : Prop := ∀ path ∈ w.index.keys, w.dirs path = false ∧ w.blocked path = false

section eviction
variable {H : Sha256} {t : ThreadId} {w u : World} {key : ArtifactKey} {entry : IndexEntry} {ds : Datastore}
  {gone : List ArtifactKey} {digest : String}

theorem named_iff : w.named gone digest = true ↔
    ∃ key ∉ gone, ∃ entry, w.entryAt key = some entry ∧ entry.digest = digest := by
  simp only [World.named,List.any_eq_true,decide_eq_true_eq]
  constructor
  · rintro ⟨⟨key,entry⟩,hmem,hgone,hd⟩
    exact ⟨key,hgone,entry,mem_catalogue.mp hmem,hd⟩
  · rintro ⟨key,hgone,entry,hentry,hd⟩
    exact ⟨(key,entry),mem_catalogue.mpr hentry,hgone,hd⟩

/-- The cache after the keys in `gone` have been evicted. -/
structure Evicted (w : World) (gone : List ArtifactKey) (u : World) : Prop where
  locks : u.locks = w.locks
  tmp : u.tmp = w.tmp
  dirs : u.dirs = w.dirs
  removed : ∀ key ∈ gone, u.index.lookup (indexPath key) = none
  others : ∀ path, (∀ key ∈ gone, path ≠ indexPath key) → u.index.lookup path = w.index.lookup path
  blobs : ∀ digest, u.blobs.lookup digest = if w.named gone digest then w.blobs.lookup digest else none

/-- Some sidecars have been removed. -/
structure Fewer (w u : World) : Prop where
  dirs : u.dirs = w.dirs
  index : ∀ path, u.index.lookup path = w.index.lookup path ∨ u.index.lookup path = none

/-- What `gc` leaves after it has evicted the keys in `gone`. -/
structure Reclaimed (w : World) (gone : List ArtifactKey) (maxBytes : ℕ) (u : World) : Prop where
  tmp : u.tmp = w.tmp
  sidecars : ∀ path, u.index.lookup path =
    if path ∈ gone.map indexPath then none else w.index.lookup path
  blobs : ∀ digest, u.blobs.lookup digest = if w.named gone digest then w.blobs.lookup digest else none
  bytes : (u.blobs.weight fun e => e.2.length) ≤ maxBytes

theorem listed_sorted : w.listed.Pairwise fun a b => a.text ≤ b.text := by
  have : Std.Total fun a b : ArtifactKey => a.text ≤ b.text := ⟨fun a b => le_total a.text b.text⟩
  have : IsTrans ArtifactKey fun a b => a.text ≤ b.text := ⟨fun _ _ _ => le_trans⟩
  exact List.pairwise_insertionSort _ _

theorem catalogue_sorted : w.catalogue.Pairwise fun a b => a.1.text ≤ b.1.text := by
  refine listed_sorted.filterMap _ fun {a b} hab x hx y hy => ?_
  obtain ⟨e,-,rfl⟩ := Option.map_eq_some_iff.mp hx
  obtain ⟨e',-,rfl⟩ := Option.map_eq_some_iff.mp hy
  exact hab

theorem mem_oldest : (key,entry) ∈ w.oldest ↔ w.entryAt key = some entry :=
  List.mem_eraseDups.trans ((List.perm_insertionSort _ _).mem_iff.trans mem_catalogue)

theorem oldest_sorted : w.oldest.Pairwise Earlier := by
  have hsorted := pairwise_insertionSort (fun e : ArtifactKey × IndexEntry => e.2.fetchedAt) (catalogue_sorted (w := w))
  refine pairwise_eraseDups hsorted fun a b ha hb h hne => ?_
  refine h.imp_right fun ⟨he,hle⟩ => ⟨he,lt_of_le_of_ne hle fun htext => hne ?_⟩
  obtain ⟨⟨text⟩,entry⟩ := a
  obtain ⟨⟨text'⟩,entry'⟩ := b
  cases htext
  have ha := mem_catalogue.mp ((List.perm_insertionSort _ _).mem_iff.mp ha)
  have hb := mem_catalogue.mp ((List.perm_insertionSort _ _).mem_iff.mp hb)
  cases ha.symm.trans hb
  rfl

namespace Fewer

theorem keys (h : Fewer w u) {path : String} (hpath : path ∈ u.index.keys) : path ∈ w.index.keys := by
  have hsome := AList.lookup_isSome.mpr hpath
  rcases h.index path with he | he
  · rw [he] at hsome
    exact AList.lookup_isSome.mp hsome
  · rw [he] at hsome
    cases hsome

theorem blocked (h : Fewer w u) {path : String} (hb : w.blocked path = false) : u.blocked path = false := by
  simp only [World.blocked,List.any_eq_false] at hb ⊢
  exact fun file hfile => hb file (h.keys hfile)

theorem treelike (h : Fewer w u) (htree : Treelike w) : Treelike u :=
  fun path hpath => ⟨by rw [h.dirs,(htree path (h.keys hpath)).1],h.blocked (htree path (h.keys hpath)).2⟩

theorem readable (h : Fewer w u) (htree : Treelike w) (hreadable : w.Readable key) : u.Readable key := by
  have habsent : u.index.lookup (indexPath key) = none → w.dirs (indexPath key) = false →
      w.blocked (indexPath key) = false → u.Readable key := by
    intro hnone hd hb
    simp only [World.Readable,World.look,hnone,h.dirs,hd,h.blocked hb,Bool.false_eq_true,if_false]
  cases hl : w.index.lookup (indexPath key) with
  | some sidecar =>
    rcases h.index (indexPath key) with he | he
    · simpa only [World.Readable,World.look,he,hl] using hreadable
    · obtain ⟨hd,hb⟩ := htree _ (AList.lookup_isSome.mp (by rw [hl]; rfl))
      exact habsent he hd hb
  | none =>
    have hnone : u.index.lookup (indexPath key) = none := by
      rcases h.index (indexPath key) with he | he
      · exact he.trans hl
      · exact he
    simp only [World.Readable,World.look,hl] at hreadable
    cases hd : w.dirs (indexPath key) with
    | true => simp [hd] at hreadable
    | false =>
      cases hb : w.blocked (indexPath key) with
      | true => simp [hd,hb] at hreadable
      | false => exact habsent hnone hd hb

theorem legible (h : Fewer w u) (htree : Treelike w) (hlegible : Legible w) : Legible u := by
  intro key hkey
  obtain ⟨path,hpath,hkey⟩ := mem_listed.mp hkey
  exact h.readable htree (hlegible key (mem_listed.mpr ⟨path,h.keys hpath,hkey⟩))

end Fewer

namespace Evicted

theorem index_key (h : Evicted w gone u) (hn : key ∉ gone) :
    u.index.lookup (indexPath key) = w.index.lookup (indexPath key) :=
  h.others _ fun _ hmem he => hn (indexPath_injective he ▸ hmem)

theorem entryAt (h : Evicted w gone u) (key : ArtifactKey) :
    u.entryAt key = if key ∈ gone then none else w.entryAt key := by
  split
  · rename_i hmem
    simp only [World.entryAt,h.removed key hmem]
  · rename_i hn
    simp only [World.entryAt,h.index_key hn]

theorem fewer (h : Evicted w gone u) : Fewer w u := by
  refine ⟨h.dirs,fun path => ?_⟩
  by_cases hgone : ∃ key ∈ gone, path = indexPath key
  · obtain ⟨key,hmem,rfl⟩ := hgone
    exact .inr (h.removed key hmem)
  · exact .inl (h.others path fun key hmem he => hgone ⟨key,hmem,he⟩)

/-- What only the next key names is what no other key names any more. -/
theorem sole_iff (h : Evicted w gone u) (hn : key ∉ gone) (hentry : w.entryAt key = some entry) :
    u.Sole key digest ↔ entry.digest = digest ∧ w.named (gone++[key]) digest = false := by
  have hu : u.entryAt key = some entry := by rw [h.entryAt,if_neg hn,hentry]
  have hnamed : w.named (gone++[key]) digest = false ↔
      ∀ other ≠ key, ∀ found, u.entryAt other = some found → found.digest ≠ digest := by
    rw [← Bool.not_eq_true,named_iff]
    constructor
    · intro hnone other hne found hfound hd
      rw [h.entryAt] at hfound
      split at hfound
      · cases hfound
      · rename_i hgone
        exact hnone ⟨other,by simp [hgone,hne],found,hfound,hd⟩
    · rintro hall ⟨other,hgone,found,hfound,hd⟩
      simp only [List.mem_append,List.mem_singleton,not_or] at hgone
      refine hall other hgone.2 found ?_ hd
      rw [h.entryAt,if_neg hgone.1,hfound]
  rw [World.Sole,hnamed]
  refine and_congr_left fun _ => ⟨?_,fun hd => ⟨entry,hu,hd⟩⟩
  rintro ⟨found,hfound,hd⟩
  cases hu.symm.trans hfound
  exact hd

/-- What is named afterwards is what the keys that are left named before. -/
theorem named (h : Evicted w gone u) (digest : String) : u.named [] digest = w.named gone digest := by
  rw [Bool.eq_iff_iff,named_iff,named_iff]
  constructor
  · rintro ⟨key,-,entry,hentry,hd⟩
    rw [h.entryAt] at hentry
    split at hentry
    · cases hentry
    · rename_i hn
      exact ⟨key,hn,entry,hentry,hd⟩
  · rintro ⟨key,hn,entry,hentry,hd⟩
    exact ⟨key,List.not_mem_nil,entry,by rw [h.entryAt,if_neg hn,hentry],hd⟩

/-- Evicting one more key. -/
theorem drop {v : World} (h : Evicted w gone u) (hn : key ∉ gone) (hentry : w.entryAt key = some entry)
    (hlocks : v.locks = u.locks) (htmp : v.tmp = u.tmp) (hdirs : v.dirs = u.dirs) (hv : Dropped key u v) :
    Evicted w (gone++[key]) v := by
  refine ⟨hlocks.trans h.locks,htmp.trans h.tmp,hdirs.trans h.dirs,fun other hmem => ?_,fun path hpath => ?_,fun digest => ?_⟩
  · by_cases he : other = key
    · subst he
      exact hv.gone
    · rw [hv.others _ fun hi => he (indexPath_injective hi)]
      exact h.removed other (by simpa [he] using hmem)
  · rw [hv.others path (hpath key (by simp)),h.others path fun other hmem => hpath other (by simp [hmem])]
  · by_cases hs : u.Sole key digest
    · obtain ⟨-,hnamed⟩ := (h.sole_iff hn hentry).mp hs
      rw [hv.freed digest hs,hnamed]
      rfl
    · rw [hv.kept digest hs,h.blobs]
      have hiff : w.named (gone++[key]) digest = w.named gone digest := by
        rw [Bool.eq_iff_iff,named_iff,named_iff]
        constructor
        · rintro ⟨other,hgone,found,hfound,hd⟩
          exact ⟨other,fun hmem => hgone (by simp [hmem]),found,hfound,hd⟩
        · rintro ⟨other,hgone,found,hfound,hd⟩
          by_cases he : other = key
          · subst he
            cases hentry.symm.trans hfound
            have := mt (h.sole_iff hn hentry).mpr hs
            simp only [hd,true_and,Bool.not_eq_false] at this
            exact named_iff.mp this
          · exact ⟨other,by simp [hgone,he],found,hfound,hd⟩
      rw [hiff]

end Evicted

/-- What is freed by evicting one more key. -/
theorem namedBytes_drop (hn : key ∉ gone) (hentry : w.entryAt key = some entry) :
    w.namedBytes (gone++[key])+(if w.named (gone++[key]) entry.digest then 0 else
      (w.blobs.lookup entry.digest).elim 0 List.length) = w.namedBytes gone := by
  have hself : w.named gone entry.digest = true := named_iff.mpr ⟨key,hn,entry,hentry,rfl⟩
  have hother : ∀ digest ≠ entry.digest, w.named (gone++[key]) digest = w.named gone digest := by
    intro digest hd
    rw [Bool.eq_iff_iff,named_iff,named_iff]
    constructor
    · rintro ⟨other,hgone,found,hfound,rfl⟩
      exact ⟨other,fun hmem => hgone (by simp [hmem]),found,hfound,rfl⟩
    · rintro ⟨other,hgone,found,hfound,rfl⟩
      refine ⟨other,?_,found,hfound,rfl⟩
      simp only [List.mem_append,List.mem_singleton,not_or]
      refine ⟨hgone,fun he => hd ?_⟩
      subst he
      cases hentry.symm.trans hfound
      rfl
  cases hnamed : w.named (gone++[key]) entry.digest with
  | true =>
    simp only [if_true,Nat.add_zero]
    refine AList.weight_congr fun e _ => ?_
    by_cases hd : e.1 = entry.digest
    · rw [hd,hnamed,hself]
    · rw [hother _ hd]
  | false =>
    simp only [Bool.false_eq_true,if_false]
    have h := AList.weight_without (s := w.blobs) (a := entry.digest)
      (f := fun e => if w.named gone e.1 then e.2.length else 0)
      (g := fun e => if w.named (gone++[key]) e.1 then e.2.length else 0)
      (fun e hd => by simp only [hother _ hd]) (fun b => by simp only [hnamed]; rfl)
    simp only [hself,if_true] at h
    exact h

/-- One key is evicted, and what it frees is what is counted. -/
theorem evict_total {sizes : List (String × ℕ)} (hlegible : Legible w) (htree : Treelike w)
    (hfree : ∀ name, w.locks name = none) (h : Evicted w gone u) (hn : key ∉ gone)
    (hentry : w.entryAt key = some entry)
    (hsizes : (sizes.lookup entry.digest).getD 0 = (w.blobs.lookup entry.digest).elim 0 List.length) :
    (ds.evict H sizes key entry).run.Total (Call.Works t) (fun out v => ∃ freed, out = .ok (true,freed) ∧
      Evicted w (gone++[key]) v ∧ w.namedBytes (gone++[key])+freed = w.namedBytes gone) u := by
  have hu : u.entryAt key = some entry := by rw [h.entryAt,if_neg hn,hentry]
  have hlocks : ∀ name, u.locks name = none := fun name => by rw [h.locks,hfree]
  have hreadable : u.Readable key := h.fewer.legible htree hlegible key (listed_of_entryAt hu)
  have hdrop := namedBytes_drop hn hentry
  refine bothLocks_total (hlocks _) (hlocks _) (Program.Total.bind_run
    ((total_looks (readEntry_looks ds.layout key)).mono ?_))
  rintro out x ⟨rfl,rfl⟩
  rw [answer_held,readEntry_readable ds.layout hreadable,hu]
  simp only [ne_eq,not_true_eq_false,if_false]
  refine unlink_total hu (fun hl referenced href => ?_) fun hl => absurd ?_ hl
  · have hdropped := dropped_of_sole referenced hu href
    have hsole : referenced = false ↔ w.named (gone++[key]) entry.digest = false := by
      rw [href,h.sole_iff hn hentry]
      simp
    cases referenced with
    | true =>
      have hnamed : w.named (gone++[key]) entry.digest = true := by
        cases hx : w.named (gone++[key]) entry.digest with
        | true => rfl
        | false => cases hsole.mpr hx
      rw [hnamed] at hdrop
      exact ⟨u.without key,rfl,rfl,0,rfl,h.drop hn hentry rfl rfl rfl hdropped,hdrop⟩
    | false =>
      rw [hsole.mp rfl] at hdrop
      refine Program.Total.bind_run (removeBlob_total ⟨u.withoutBoth key entry.digest,rfl,rfl,_,rfl,
        h.drop hn hentry rfl rfl rfl hdropped,?_⟩)
      rw [hsizes]
      exact hdrop
  · refine Fewer.legible (w := u) ⟨rfl,fun path => ?_⟩ (h.fewer.treelike htree) (h.fewer.legible htree hlegible)
    by_cases he : path = indexPath key
    · subst he
      exact .inr (AList.lookup_erase _ _)
    · exact .inl (AList.lookup_erase_ne he)

/-- A key that is gone already is passed over. -/
theorem evict_gone {sizes : List (String × ℕ)} (hlegible : Legible w) (htree : Treelike w)
    (hfree : ∀ name, w.locks name = none) (h : Evicted w gone u) (hmem : key ∈ gone)
    (hentry : w.entryAt key = some entry) :
    (ds.evict H sizes key entry).run.Total (Call.Works t) (fun out v => out = .ok (false,0) ∧ v = u) u := by
  have hlocks : ∀ name, u.locks name = none := fun name => by rw [h.locks,hfree]
  refine bothLocks_total (hlocks _) (hlocks _) (Program.Total.bind_run
    ((total_looks (readEntry_looks ds.layout key)).mono ?_))
  rintro out x ⟨rfl,rfl⟩
  have hnone : u.entryAt key = none := by rw [h.entryAt,if_pos hmem]
  have hreadable : u.Readable key := h.fewer.readable htree (hlegible key (listed_of_entryAt hentry))
  rw [answer_held,readEntry_readable ds.layout hreadable,hnone]
  exact ⟨u,rfl,rfl,rfl,rfl⟩

/-- The blobs on disk with their lengths, as the first phase lists them. -/
def World.stored (w : World) : List (String × ℕ) :=
  ((w.blobs.entries.map fun e => (e.1,e.2.length)).filter fun e => isDigest e.1).insertionSort
    fun a b => a.1 ≤ b.1

theorem mem_stored {len : ℕ} : (digest,len) ∈ w.stored ↔
    isDigest digest = true ∧ ∃ content, w.blobs.lookup digest = some content ∧ content.length = len := by
  rw [World.stored,(List.perm_insertionSort _ _).mem_iff,List.mem_filter,List.mem_map,and_comm]
  refine and_congr_right fun _ => ?_
  constructor
  · rintro ⟨⟨d,content⟩,hmem,he⟩
    cases he
    exact ⟨content,AList.mem_lookup_iff.mpr hmem,rfl⟩
  · rintro ⟨content,hl,rfl⟩
    exact ⟨⟨digest,content⟩,AList.mem_lookup_iff.mp hl,rfl⟩

theorem sweepOrphans_total (entries : List (ArtifactKey × IndexEntry)) (blobs : List (String × ℕ)) :
    ∀ u : World, (Datastore.sweepOrphans entries blobs).run.Total (Call.Works t) (fun out v =>
      out = .ok (blobs.filter fun b => entries.any fun e => e.2.digest = b.1) ∧
      v = { u with blobs := v.blobs } ∧ ∀ digest, v.blobs.lookup digest =
        if digest ∈ blobs.map Prod.fst ∧ (entries.any fun e => e.2.digest = digest) = false then none
        else u.blobs.lookup digest) u := by
  induction blobs with
  | nil => exact fun u => ⟨rfl,rfl,fun digest => by simp⟩
  | cons b rest ih =>
    obtain ⟨name,len⟩ := b
    intro u
    rw [Datastore.sweepOrphans]
    cases hnamed : entries.any fun e => e.2.digest = name with
    | true =>
      simp only [if_true]
      refine Program.Total.bind_run ((ih u).mono ?_)
      rintro out v ⟨rfl,hv,hblobs⟩
      refine ⟨?_,hv,fun digest => ?_⟩
      · simp only [List.filter_cons,hnamed,if_true]
      · rw [hblobs]
        refine if_congr ?_ rfl rfl
        rw [List.map_cons,List.mem_cons]
        refine and_congr_left fun hd => ⟨.inr,fun hmem => hmem.resolve_left fun he => ?_⟩
        subst he
        rw [hnamed] at hd
        cases hd
    | false =>
      simp only [Bool.false_eq_true,if_false]
      refine Program.Total.bind_run (removeBlob_total ((ih _).mono ?_))
      rintro out v ⟨rfl,hv,hblobs⟩
      refine ⟨?_,hv,fun digest => ?_⟩
      · simp only [List.filter_cons,hnamed,Bool.false_eq_true,if_false]
      · rw [hblobs]
        by_cases hd : digest = name
        · subst hd
          rw [AList.lookup_erase,ite_self,if_pos ⟨List.mem_cons_self ..,hnamed⟩]
        · rw [AList.lookup_erase_ne hd]
          simp only [List.map_cons,List.mem_cons,hd,false_or]

theorem named_nil : (w.catalogue.any fun e => e.2.digest = digest) = w.named [] digest := by
  simp [World.named]

/-- The lengths that are kept for the second phase are those of the blobs. -/
theorem stored_lookup (hblobs : ∀ digest content, w.blobs.lookup digest = some content → isDigest digest = true)
    (hnamed : w.named [] digest = true) :
    ((w.stored.filter fun b => w.named [] b.1).lookup digest).getD 0 =
      (w.blobs.lookup digest).elim 0 List.length := by
  cases hl : w.blobs.lookup digest with
  | none =>
    have hnone : (w.stored.filter fun b => w.named [] b.1).lookup digest = none := by
      rw [List.lookup_eq_none_iff]
      rintro ⟨name,len⟩ hmem
      obtain ⟨-,content,hcontent,-⟩ := mem_stored.mp (List.mem_filter.mp hmem).1
      simp only [bne_iff_ne,ne_eq]
      rintro rfl
      rw [hl] at hcontent
      cases hcontent
    rw [hnone]
    rfl
  | some content =>
    have hmem : (digest,content.length) ∈ w.stored.filter fun b => w.named [] b.1 :=
      List.mem_filter.mpr ⟨mem_stored.mpr ⟨hblobs _ _ hl,content,hl,rfl⟩,hnamed⟩
    cases hfound : (w.stored.filter fun b => w.named [] b.1).lookup digest with
    | none =>
      have := List.lookup_eq_none_iff.mp hfound _ hmem
      simp at this
    | some len =>
      obtain ⟨before,after,he,-⟩ := List.lookup_eq_some_iff.mp hfound
      have hlen : (digest,len) ∈ w.stored.filter fun b => w.named [] b.1 := by simp [he]
      obtain ⟨-,content',hcontent,rfl⟩ := mem_stored.mp (List.mem_filter.mp hlen).1
      cases hl.symm.trans hcontent
      rfl

theorem stored_sum (hblobs : ∀ digest content, w.blobs.lookup digest = some content → isDigest digest = true) :
    ((w.stored.filter fun b => w.named [] b.1).map Prod.snd).sum = w.namedBytes [] := by
  have hsum : ∀ (l : List (String × ℕ)) (p : String × ℕ → Bool),
      ((l.filter p).map Prod.snd).sum = (l.map fun b => if p b then b.2 else 0).sum := by
    intro l p
    induction l with
    | nil => rfl
    | cons b l ih => cases hp : p b <;> simp [hp,ih]
  have hall : (w.blobs.entries.map fun e => (e.1,e.2.length)).filter (fun e => isDigest e.1) =
      w.blobs.entries.map fun e => (e.1,e.2.length) := by
    refine List.filter_eq_self.mpr fun b hb => ?_
    obtain ⟨e,he,rfl⟩ := List.mem_map.mp hb
    exact hblobs e.1 e.2 (AList.mem_lookup_iff.mpr he)
  rw [World.stored,(((List.perm_insertionSort _ _).filter _).map _).sum_eq,hall,hsum,List.map_map]
  rfl

/-- The first phase removes what nobody names, and measures the rest. -/
theorem gcScan_total (hlegible : Legible w) (hstore : w.locks Layout.storeLockName = none)
    (hblobs : ∀ digest content, w.blobs.lookup digest = some content → isDigest digest = true) :
    ds.gcScan.run.Total (Call.Works t) (fun out u =>
      out = .ok (w.catalogue,w.stored.filter fun b => w.named [] b.1) ∧ Evicted w [] u) w := by
  refine withLock_total hstore (Program.Total.bind_run ((total_looks (entries_looks ds)).mono ?_))
  rintro out u ⟨rfl,rfl⟩
  rw [answer_setLock,entries_consult hlegible ds]
  have hlooks : Layout.blobs.run.Only fun c => c.looks = true := ⟨rfl,fun r => by cases r <;> trivial⟩
  refine Program.Total.bind_run ((total_looks hlooks).mono ?_)
  rintro out u ⟨rfl,rfl⟩
  rw [answer_setLock]
  have hstored : Layout.blobs.run.consult w.answer = .ok w.stored := rfl
  rw [hstored]
  refine Program.Total.bind_run ((sweepOrphans_total w.catalogue w.stored _).mono ?_)
  rintro out v ⟨rfl,hv,hl⟩
  have hlocks : v.locks Layout.storeLockName = some t := by
    rw [hv]
    simp only [World.setLock,Function.update_self]
  refine ⟨hlocks,?_,?_,?_,?_,fun _ hmem => absurd hmem List.not_mem_nil,?_,fun digest => ?_⟩
  · simp only [named_nil]
  · have hback : ((w.setLock Layout.storeLockName (some t)).setLock Layout.storeLockName none).locks =
        w.locks := congrArg World.locks (setLock_free hstore (some t))
    rw [hv]
    exact hback
  · rw [hv]
    rfl
  · rw [hv]
    rfl
  · rw [hv]
    exact fun _ _ => rfl
  · refine (hl digest).trans ?_
    rw [named_nil]
    cases hnamed : w.named [] digest with
    | true => simp only [Bool.true_eq_false,and_false,if_false]; rfl
    | false =>
      simp only [and_true,Bool.false_eq_true,if_false]
      refine ite_eq_left_iff.mpr fun hmem => ?_
      refine Option.eq_none_iff_forall_not_mem.mpr fun content hcontent => hmem ?_
      exact List.mem_map.mpr ⟨_,mem_stored.mpr ⟨hblobs _ _ hcontent,content,hcontent,rfl⟩,rfl⟩

/-- What is left to evict of a list that may name a key twice. -/
def remaining (gone : List ArtifactKey) (rest : List (ArtifactKey × IndexEntry)) :
    List (ArtifactKey × IndexEntry) := (rest.filter fun e => e.1 ∉ gone).eraseDups

theorem remaining_gone {rest : List (ArtifactKey × IndexEntry)} (hmem : key ∈ gone) :
    remaining gone ((key,entry)::rest) = remaining gone rest := by
  simp only [remaining,List.filter_cons,hmem,not_true_eq_false,decide_false,Bool.false_eq_true,if_false]

theorem remaining_cons {rest : List (ArtifactKey × IndexEntry)} (hn : key ∉ gone)
    (hsame : ∀ e ∈ rest, e.1 = key → e = (key,entry)) :
    remaining gone ((key,entry)::rest) = (key,entry)::remaining (gone++[key]) rest := by
  simp only [remaining,List.filter_cons,hn,not_false_eq_true,decide_true,if_true,List.eraseDups_cons,
    List.filter_filter]
  congr 2
  refine List.filter_congr fun e he => ?_
  by_cases hk : e.1 = key
  · simp [hsame e he hk]
  · have hne : e ≠ (key,entry) := fun h => hk (congrArg Prod.fst h)
    simp [hk,hne]

/-- The second phase evicts the shortest prefix of what it is given that is enough. -/
theorem gcEvict_total (ds : Datastore) {sizes : List (String × ℕ)} (maxBytes : ℕ) (hlegible : Legible w) (htree : Treelike w)
    (hfree : ∀ name, w.locks name = none) (hsizes : ∀ key entry, w.entryAt key = some entry →
      (sizes.lookup entry.digest).getD 0 = (w.blobs.lookup entry.digest).elim 0 List.length)
    (rest : List (ArtifactKey × IndexEntry)) : ∀ (gone : List ArtifactKey) (u : World),
    (∀ e ∈ rest, w.entryAt e.1 = some e.2) → Evicted w gone u →
    (ds.gcEvict H maxBytes sizes rest (w.namedBytes gone)).run.Total (Call.Works t) (fun out v =>
      ∃ n ≤ (remaining gone rest).length, out = .ok (((remaining gone rest).take n).map Prod.fst) ∧
        Evicted w (gone++((remaining gone rest).take n).map Prod.fst) v ∧
        (w.namedBytes (gone++((remaining gone rest).take n).map Prod.fst) ≤ maxBytes ∨
          n = (remaining gone rest).length) ∧
        ∀ k < n, maxBytes < w.namedBytes (gone++((remaining gone rest).take k).map Prod.fst)) u := by
  induction rest with
  | nil =>
    intro gone u _ h
    exact ⟨0,le_rfl,rfl,by simpa using h,.inr rfl,fun k hk => absurd hk (Nat.not_lt_zero k)⟩
  | cons e rest ih =>
    obtain ⟨key,snapshot⟩ := e
    intro gone u hmem h
    have hentry := hmem _ (List.mem_cons_self ..)
    have hrest : ∀ e ∈ rest, w.entryAt e.1 = some e.2 := fun e he => hmem e (List.mem_cons_of_mem _ he)
    rw [Datastore.gcEvict]
    by_cases hm : w.namedBytes gone ≤ maxBytes
    · rw [if_pos hm]
      exact ⟨0,Nat.zero_le _,rfl,by simpa using h,.inl (by simpa using hm),
        fun k hk => absurd hk (Nat.not_lt_zero k)⟩
    · rw [if_neg hm]
      by_cases hn : key ∈ gone
      · refine Program.Total.bind_run ((evict_gone hlegible htree hfree h hn hentry).mono ?_)
        rintro out v ⟨rfl,rfl⟩
        rw [remaining_gone hn]
        exact Program.Total.bind_run ((ih gone v hrest h).mono fun out x hx => by
          obtain ⟨n,hle,rfl,hx⟩ := hx
          exact ⟨n,hle,rfl,hx⟩)
      · refine Program.Total.bind_run ((evict_total hlegible htree hfree h hn hentry (hsizes _ _ hentry)).mono ?_)
        rintro out v ⟨freed,rfl,hv,hfreed⟩
        have htotal : w.namedBytes gone-freed = w.namedBytes (gone++[key]) := Nat.sub_eq_of_eq_add hfreed.symm
        have hsame : ∀ e ∈ rest, e.1 = key → e = (key,snapshot) := by
          rintro ⟨other,found⟩ he rfl
          cases (hrest _ he).symm.trans hentry
          rfl
        rw [remaining_cons hn hsame]
        simp only [htotal]
        refine Program.Total.bind_run ((ih (gone++[key]) v hrest hv).mono ?_)
        rintro out x ⟨n,hle,rfl,hx,hmax,hbefore⟩
        simp only [List.append_assoc,List.singleton_append] at hx hmax hbefore
        refine ⟨n+1,Nat.succ_le_succ hle,rfl,hx,hmax.imp_right fun hn => by rw [hn]; rfl,fun k hk => ?_⟩
        cases k with
        | zero => simpa using hm
        | succ k => exact hbefore k (Nat.lt_of_succ_lt_succ hk)

theorem Evicted.blob_digest (h : Evicted w gone u)
    (hblobs : ∀ digest content, w.blobs.lookup digest = some content → isDigest digest = true) :
    ∀ digest content, u.blobs.lookup digest = some content → isDigest digest = true := by
  intro digest content hl
  rw [h.blobs] at hl
  split at hl
  · exact hblobs _ _ hl
  · cases hl

theorem Evicted.reclaimed {maxBytes : ℕ} (h : Evicted w gone u) (hm : w.namedBytes gone ≤ maxBytes) :
    Reclaimed w gone maxBytes u := by
  refine ⟨h.tmp,fun path => ?_,h.blobs,(AList.weight_filter h.blobs).trans_le hm⟩
  split
  · rename_i hmem
    obtain ⟨key,hkey,rfl⟩ := List.mem_map.mp hmem
    exact h.removed key hkey
  · rename_i hmem
    exact h.others path fun key hkey he => hmem (List.mem_map.mpr ⟨key,hkey,he.symm⟩)

/-- Nothing is named any more once all keys are gone. -/
theorem namedBytes_all : w.namedBytes (w.oldest.map Prod.fst) = 0 := by
  have hnone : ∀ digest, w.named (w.oldest.map Prod.fst) digest = false := by
    intro digest
    rw [← Bool.not_eq_true,named_iff]
    rintro ⟨key,hgone,entry,hentry,-⟩
    exact hgone (List.mem_map.mpr ⟨_,mem_oldest.mpr hentry,rfl⟩)
  have hzero : w.namedBytes (w.oldest.map Prod.fst) = w.blobs.weight fun _ => 0 := by
    refine AList.weight_congr fun e _ => ?_
    rw [hnone]
    rfl
  rw [hzero,AList.weight]
  simp

theorem gc_evicts (hlegible : Legible w) (htree : Treelike w) (hfree : ∀ name, w.locks name = none)
    (hblobs : ∀ digest content, w.blobs.lookup digest = some content → isDigest digest = true) (maxBytes : ℕ) :
    (ds.gc H maxBytes).run.Total (Call.Works t) (fun out u => ∃ n ≤ w.oldest.length,
      out = .ok ((w.oldest.take n).map Prod.fst) ∧ Evicted w ((w.oldest.take n).map Prod.fst) u ∧
      w.namedBytes ((w.oldest.take n).map Prod.fst) ≤ maxBytes ∧
      ∀ k < n, maxBytes < w.namedBytes ((w.oldest.take k).map Prod.fst)) w := by
  refine Program.Total.bind_run ((gcScan_total hlegible (hfree _) hblobs).mono ?_)
  rintro out u ⟨rfl,hu⟩
  simp only [stored_sum hblobs]
  have hsizes : ∀ key entry, w.entryAt key = some entry →
      ((w.stored.filter fun b => w.named [] b.1).lookup entry.digest).getD 0 =
        (w.blobs.lookup entry.digest).elim 0 List.length := fun key entry hentry =>
    stored_lookup hblobs (named_iff.mpr ⟨key,List.not_mem_nil,entry,hentry,rfl⟩)
  have hmem : ∀ e ∈ w.catalogue.insertionSort fun a b => a.2.fetchedAt ≤ b.2.fetchedAt,
      w.entryAt e.1 = some e.2 := fun e he => mem_catalogue.mp ((List.perm_insertionSort _ _).mem_iff.mp he)
  have holdest : remaining [] (w.catalogue.insertionSort fun a b => a.2.fetchedAt ≤ b.2.fetchedAt) = w.oldest := by
    simp only [remaining,List.not_mem_nil,not_false_eq_true,decide_true,List.filter_true]
    rfl
  have htotal := gcEvict_total (H := H) (t := t) ds maxBytes hlegible htree hfree hsizes _ [] u hmem hu
  rw [holdest] at htotal
  refine htotal.mono ?_
  rintro out v ⟨n,hle,rfl,hv,hmax,hbefore⟩
  refine ⟨n,hle,rfl,hv,hmax.elim id fun hn => ?_,hbefore⟩
  rw [hn,List.take_length,namedBytes_all]
  exact Nat.zero_le _

/-- `gc` evicts the shortest prefix of the keys, oldest first, whose removal leaves the named
blobs within the budget, and what is left is what is still named. Doing it again evicts
nothing. -/
theorem gc_shortest (ds : Datastore) (hlegible : Legible w) (htree : Treelike w) (hfree : ∀ name, w.locks name = none)
    (hblobs : ∀ digest content, w.blobs.lookup digest = some content → isDigest digest = true) (maxBytes : ℕ) :
    w.oldest.Pairwise Earlier ∧ (∀ key entry, (key,entry) ∈ w.oldest ↔ w.entryAt key = some entry) ∧
    (ds.gc H maxBytes).run.Total (Call.Works t) (fun out u => ∃ n ≤ w.oldest.length,
      out = .ok ((w.oldest.take n).map Prod.fst) ∧
      w.namedBytes ((w.oldest.take n).map Prod.fst) ≤ maxBytes ∧
      (∀ k < n, maxBytes < w.namedBytes ((w.oldest.take k).map Prod.fst)) ∧
      Reclaimed w ((w.oldest.take n).map Prod.fst) maxBytes u ∧
      (ds.gc H maxBytes).run.Total (Call.Works t) (fun out v => out = .ok [] ∧ v.tmp = u.tmp ∧
        (∀ path, v.index.lookup path = u.index.lookup path) ∧
        ∀ digest, v.blobs.lookup digest = u.blobs.lookup digest) u) w := by
  refine ⟨oldest_sorted,fun _ _ => mem_oldest,(gc_evicts hlegible htree hfree hblobs maxBytes).mono ?_⟩
  rintro out u ⟨n,hle,rfl,hu,hmax,hbefore⟩
  have hreclaimed := hu.reclaimed hmax
  refine ⟨n,hle,rfl,hmax,hbefore,hreclaimed,?_⟩
  have hfree' : ∀ name, u.locks name = none := fun name => by rw [hu.locks,hfree]
  refine (gc_evicts (hu.fewer.legible htree hlegible) (hu.fewer.treelike htree) hfree' (hu.blob_digest hblobs) maxBytes).mono ?_
  rintro out v ⟨n',-,rfl,hv,-,hbefore'⟩
  have hzero : n' = 0 := by
    refine Nat.eq_zero_of_not_pos fun hpos => absurd (hbefore' 0 hpos) (not_lt.mpr ?_)
    refine (AList.weight_le fun e => ?_).trans hreclaimed.bytes
    split <;> omega
  subst hzero
  rw [List.take_zero,List.map_nil] at hv
  refine ⟨rfl,hv.tmp,fun path => hv.others path fun key hmem => absurd hmem List.not_mem_nil,fun digest => ?_⟩
  rw [hv.blobs,hu.named,hu.blobs]
  split <;> rfl

end eviction

theorem legible_shared : Legible .shared := legible_of_entries (by decide +kernel)

/-- Six bytes of which three may be left: the two older keys go with the content that they share. -/
theorem gc_shortest_shared : (Datastore.gc .sample .alone 3).run.Total (Call.Works 0) (fun out u =>
    (∃ gone, out = .ok gone ∧ gone.map ArtifactKey.text = ["abc","abd"]) ∧
    u.blobs.lookup (Sha256.sample.hex [0x61,0x62,0x63]) = none ∧
    ∃ digest, u.blobs.lookup digest = some [0x64,0x65,0x66]) .shared := by
  have htree : Treelike .shared := by
    unfold Treelike
    decide +kernel
  have hblobs : ∀ digest content, World.shared.blobs.lookup digest = some content → isDigest digest = true := by
    have hall : ∀ digest ∈ World.shared.blobs.keys, isDigest digest = true := by decide +kernel
    intro digest content hl
    exact hall digest (AList.mem_keys.mp (AList.lookup_isSome.mp (by rw [hl]; rfl)))
  obtain ⟨-,-,h⟩ := gc_shortest (H := .sample) (t := 0) .alone legible_shared htree (fun _ => rfl) hblobs 3
  refine h.mono ?_
  rintro out u ⟨n,hn,rfl,hmax,hbefore,hu,-⟩
  have htwo : ∀ n ≤ World.shared.oldest.length,
      World.shared.namedBytes ((World.shared.oldest.take n).map Prod.fst) ≤ 3 →
      (∀ k < n, 3 < World.shared.namedBytes ((World.shared.oldest.take k).map Prod.fst)) → n = 2 := by
    decide +kernel
  obtain rfl := htwo n hn hmax hbefore
  have hgone : World.shared.named ((World.shared.oldest.take 2).map Prod.fst)
      (Sha256.sample.hex [0x61,0x62,0x63]) = false := by decide +kernel
  have hleft : World.shared.named ((World.shared.oldest.take 2).map Prod.fst)
      "cb8379ac2098aa165029e3938a51da0bcecfc008fd6795f401178647f96c5b34" = true := by decide +kernel
  refine ⟨⟨_,rfl,by decide +kernel⟩,(hu.blobs _).trans ?_,_,(hu.blobs _).trans (if_pos hleft)⟩
  rw [hgone]
  rfl

end StarfieldDatastore
