import StarfieldDatastore.Reclaim

/-! Where keys and digests lead: to distinct paths strictly inside their directories. -/
namespace StarfieldDatastore

/-- The components of a path that stays strictly inside the directory it is relative to. -/
def Contained (parts : List (List Char)) : Prop :=
  parts ≠ [] ∧ ∀ part ∈ parts, part ≠ [] ∧ part ≠ ['.'] ∧ part ≠ ['.','.'] ∧ '/' ∉ part

theorem indexPath_injective {a b : ArtifactKey} (h : indexPath a = indexPath b) : a = b := by
  have := congrArg keyOfPath h
  rw [keyOfPath_indexPath,keyOfPath_indexPath] at this
  exact Option.some.inj this

theorem splitOn_append {l s : List Char} (hs : '/' ∉ s) : ∃ init last,
    l.splitOn '/' = init++[last] ∧ (l++s).splitOn '/' = init++[last++s] := by
  induction l with
  | nil =>
    refine ⟨[],[],by simp,?_⟩
    rw [List.nil_append,List.splitOn_eq_splitOnP,List.splitOnP_eq_singleton]
    · rfl
    · intro c hc
      exact beq_eq_false_iff_ne.mpr fun he => hs (he ▸ hc)
  | cons c l ih =>
    obtain ⟨init,last,hl,hls⟩ := ih
    rw [List.cons_append,List.splitOn_cons_eq_if_modifyHead,List.splitOn_cons_eq_if_modifyHead,hl,hls]
    by_cases hc : (c == '/') = true
    · rw [if_pos hc,if_pos hc]
      exact ⟨[] :: init,last,rfl,rfl⟩
    · rw [if_neg hc,if_neg hc]
      cases init with
      | nil => exact ⟨[],c :: last,rfl,rfl⟩
      | cons first init => exact ⟨(c :: first) :: init,last,rfl,rfl⟩

theorem not_mem_of_mem_splitOn {l part : List Char} (h : part ∈ l.splitOn '/') : '/' ∉ part := by
  induction l generalizing part with
  | nil => simp_all
  | cons c l ih =>
    rw [List.splitOn_cons_eq_if_modifyHead] at h
    split at h
    · rcases List.mem_cons.mp h with rfl | h
      · exact List.not_mem_nil
      · exact ih h
    · rename_i hc
      cases hl : l.splitOn '/' with
      | nil => exact absurd hl (List.splitOn_ne_nil _ _)
      | cons first rest =>
        rw [hl] at h
        rcases List.mem_cons.mp h with rfl | h
        · intro hmem
          rcases List.mem_cons.mp hmem with he | hmem
          · exact hc (by simp [← he])
          · exact ih (by rw [hl]; exact List.mem_cons_self) hmem
        · exact ih (by rw [hl]; exact List.mem_cons_of_mem _ h)

theorem ArtifactKey.parts (key : ArtifactKey) {part : List Char} (h : part ∈ key.text.toList.splitOn '/') :
    part ≠ [] ∧ part ≠ ['.'] ∧ part ≠ ['.','.'] := by
  have hvalid := key.valid
  simp only [validKey,Bool.and_eq_true,Bool.not_eq_true',Bool.or_eq_false_iff,List.any_eq_false] at hvalid
  have hpart := hvalid.1.2 part h
  simp only [Bool.or_eq_true,not_or,Bool.not_eq_true,beq_eq_false_iff_ne,List.isEmpty_eq_false_iff] at hpart
  exact ⟨hpart.1.1.1,hpart.1.1.2,hpart.1.2⟩

theorem indexPath_proper (key : ArtifactKey) : Contained ((indexPath key).toList.splitOn '/') := by
  refine ⟨List.splitOn_ne_nil _ _,fun part hpart => ?_⟩
  have hslash := not_mem_of_mem_splitOn hpart
  obtain ⟨init,last,hkey,hpath⟩ := splitOn_append (l := key.text.toList) (s := ".json".toList) (by decide)
  rw [indexPath,String.toList_append,hpath] at hpart
  rcases List.mem_append.mp hpart with hinit | hlast
  · have hmem : part ∈ key.text.toList.splitOn '/' := hkey ▸ List.mem_append_left _ hinit
    obtain ⟨h₁,h₂,h₃⟩ := key.parts hmem
    exact ⟨h₁,h₂,h₃,hslash⟩
  · obtain rfl := List.mem_singleton.mp hlast
    have hlong : ∀ short : List Char, short.length < 5 → last++".json".toList ≠ short := by
      rintro short hshort rfl
      rw [List.length_append] at hshort
      have hsuffix : ".json".toList.length = 5 := rfl
      omega
    exact ⟨hlong _ (by decide),hlong _ (by decide),hlong _ (by decide),hslash⟩

theorem isDigest_chars {digest : String} (h : isDigest digest = true) :
    digest.toList.length = 64 ∧ ∀ c ∈ digest.toList, c ≠ '.' ∧ c ≠ '/' := by
  simp only [isDigest,Bool.and_eq_true,beq_iff_eq,List.all_eq_true] at h
  refine ⟨h.1,fun c hc => ?_⟩
  have hchar := h.2 c hc
  constructor
  · rintro rfl
    revert hchar
    decide
  · rintro rfl
    revert hchar
    decide

theorem blobPath_proper {digest : String} (h : isDigest digest = true) :
    ∃ shard name, blobPath digest = ["blobs",shard,name] ∧ Contained [shard.toList,name.toList] := by
  obtain ⟨hlen,hchars⟩ := isDigest_chars h
  -- a nonempty part of a digest is a proper name
  have hpart : ∀ part : List Char, part ≠ [] → (∀ c ∈ part, c ∈ digest.toList) →
      part ≠ [] ∧ part ≠ ['.'] ∧ part ≠ ['.','.'] ∧ '/' ∉ part := by
    intro part hne hsub
    refine ⟨hne,?_,?_,fun hs => (hchars _ (hsub _ hs)).2 rfl⟩
    · rintro rfl
      exact (hchars '.' (hsub _ (by simp))).1 rfl
    · rintro rfl
      exact (hchars '.' (hsub _ (by simp))).1 rfl
  refine ⟨_,_,rfl,by simp,fun part hmem => ?_⟩
  rcases List.mem_cons.mp hmem with rfl | hmem
  · rw [String.toList_ofList]
    refine hpart _ (fun he => ?_) fun c hc => List.mem_of_mem_take hc
    have := congrArg List.length he
    rw [List.length_take,hlen] at this
    simp at this
  · obtain rfl := List.mem_singleton.mp hmem
    refine hpart _ (fun he => ?_) fun c hc => hc
    rw [he] at hlen
    cases hlen
end StarfieldDatastore
