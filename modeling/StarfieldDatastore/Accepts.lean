import StarfieldDatastore.HtmlPrefix

/-! The plain meaning of a check, and how the three ways in which the code evaluates a
check relate to it: the reader, the pins compared apart from the rest, and the prefix. -/
namespace StarfieldDatastore

/-- The body as a signature sees it. -/
def trimmed (trim : Bool) (body : Bytes) : Bytes :=
  if trim then body.dropWhile isAsciiWhitespace else body

namespace ContentCheck
variable {H : Sha256} {body : Bytes}

mutual

/-- What it means for a body to satisfy a check. -/
def Accepts (H : Sha256) (body : Bytes) : ContentCheck → Prop
  | .none => True
  | .minBytes min => min ≤ body.length
  | .sha256 digest => H.hex body = digest
  | .magic prefixes trim =>
    prefixes ≠ [] ∧ (∀ p ∈ prefixes, p ≠ []) ∧ ∃ p ∈ prefixes, p <+: trimmed trim body
  | .notHtml => looksHtml (body.take 8192) = false
  | .custom f => f body = .ok ()
  | .all checks => AcceptsAll H body checks

def AcceptsAll (H : Sha256) (body : Bytes) : List ContentCheck → Prop
  | [] => True
  | check :: checks => check.Accepts H body ∧ AcceptsAll H body checks

end

theorem readFirst_eq (trim : Bool) (body : Bytes) :
    readFirst trim body = ((trimmed trim body).take 1,(trimmed trim body).drop 1) := by
  induction body with
  | nil => cases trim <;> rfl
  | cons b rest ih =>
    unfold readFirst trimmed
    cases trim with
    | false => simp
    | true =>
      cases hb : isAsciiWhitespace b with
      | false => simp [hb]
      | true =>
        simp only [trimmed,if_true] at ih
        simp [hb,ih]

/-- The reader sees the first `max` bytes after the trimmed whitespace. -/
theorem magicHead_eq (trim : Bool) {max : ℕ} (hmax : 0 < max) (body : Bytes) :
    magicHead trim max body = (trimmed trim body).take max := by
  unfold magicHead
  rw [readFirst_eq]
  cases trimmed trim body with
  | nil => simp
  | cons b rest =>
    obtain ⟨n,rfl⟩ := Nat.exists_eq_succ_of_ne_zero hmax.ne'
    simp

theorem le_foldl_max (lengths : List ℕ) (start : ℕ) :
    start ≤ lengths.foldl max start ∧ ∀ n ∈ lengths, n ≤ lengths.foldl max start := by
  induction lengths generalizing start with
  | nil => simp
  | cons m lengths ih =>
    obtain ⟨hstart,hmem⟩ := ih (max start m)
    refine ⟨(le_max_left _ _).trans hstart,fun n hn => ?_⟩
    rcases List.mem_cons.mp hn with rfl | hn
    · exact (le_max_right _ _).trans hstart
    · exact hmem n hn

theorem magic_any_iff {prefixes : List Bytes} {trim : Bool} (hne : ∀ p ∈ prefixes, p ≠ []) :
    (prefixes.any fun p =>
      p.isPrefixOf (magicHead trim ((prefixes.map List.length).foldl max 0) body)) = true ↔
      ∃ p ∈ prefixes, p <+: trimmed trim body := by
  simp only [List.any_eq_true,List.isPrefixOf_iff_prefix]
  refine exists_congr fun p => and_congr_right fun hp => ?_
  have hle := (le_foldl_max (prefixes.map List.length) 0).2 p.length (List.mem_map_of_mem hp)
  rw [magicHead_eq trim ((List.length_pos_of_ne_nil (hne p hp)).trans_le hle),List.prefix_take_iff]
  exact and_iff_left hle

theorem magic_empty_iff {prefixes : List Bytes} :
    (prefixes.isEmpty || prefixes.any List.isEmpty) = false ↔
      prefixes ≠ [] ∧ ∀ p ∈ prefixes, p ≠ [] := by
  simp [List.any_eq_false]

theorem bind_ok_iff {ε : Type} {x y : Except ε Unit} :
    (do x; y) = .ok () ↔ x = .ok () ∧ y = .ok () := by
  cases x with
  | ok u => exact ⟨fun h => ⟨rfl,h⟩,fun h => h.2⟩
  | error e => exact ⟨fun h => (nomatch h),fun h => (nomatch h.1)⟩

mutual

/-- The reader accepts exactly the bodies that satisfy the check. -/
theorem checkReader_iff (c : ContentCheck) :
    c.checkReader H body body.length = .ok () ↔ c.Accepts H body := by
  match c with
  | .none => simp [checkReader,Accepts]
  | .minBytes min => simp [checkReader,Accepts,fail]
  | .sha256 digest => simp [checkReader,Accepts,fail]
  | .notHtml => simp [checkReader,Accepts,fail]
  | .custom f =>
    simp only [checkReader,Accepts]
    cases hf : f body <;> simp [fail]
  | .magic prefixes trim =>
    simp only [checkReader,Accepts]
    split
    · rename_i he
      have hne : ¬ (prefixes ≠ [] ∧ ∀ p ∈ prefixes, p ≠ []) := by
        rw [← magic_empty_iff,he]
        simp
      simp only [fail]
      exact ⟨fun h => (nomatch h),fun h => absurd ⟨h.1,h.2.1⟩ hne⟩
    · rename_i he
      obtain ⟨hnil,hne⟩ := magic_empty_iff.mp (Bool.not_eq_true _ ▸ he)
      split
      · rename_i hany
        exact ⟨fun _ => ⟨hnil,hne,(magic_any_iff hne).mp hany⟩,fun _ => rfl⟩
      · rename_i hany
        exact ⟨fun h => (nomatch h),fun h => absurd ((magic_any_iff hne).mpr h.2.2) hany⟩
  | .all checks =>
    simp only [checkReader,Accepts]
    exact checkReaders_iff checks

theorem checkReaders_iff (checks : List ContentCheck) :
    checkReaders H body body.length checks = .ok () ↔ AcceptsAll H body checks := by
  match checks with
  | [] => simp [checkReaders,AcceptsAll]
  | check :: checks =>
    simp only [checkReaders,AcceptsAll,bind_ok_iff]
    exact and_congr (checkReader_iff check) (checkReaders_iff checks)

end

theorem check_iff {c : ContentCheck} : c.check H body = .ok () ↔ c.Accepts H body :=
  checkReader_iff c

theorem checkFile_iff {c : ContentCheck} : c.checkFile H body = .ok () ↔ c.Accepts H body := by
  unfold checkFile
  split
  · exact checkReader_iff (.sha256 _)
  · exact checkReader_iff c

mutual

/-- The pins and the rest of the tree can be evaluated apart. -/
theorem accepts_iff_pins (c : ContentCheck) :
    c.Accepts H body ↔ (∀ pin ∈ c.pinnedSha256s, pin = H.hex body) ∧
      c.withoutSha256.Accepts H body := by
  match c with
  | .none => simp [pinnedSha256s,withoutSha256]
  | .minBytes min => simp [pinnedSha256s,withoutSha256]
  | .sha256 digest => simp [pinnedSha256s,withoutSha256,Accepts,eq_comm]
  | .notHtml => simp [pinnedSha256s,withoutSha256]
  | .custom f => simp [pinnedSha256s,withoutSha256]
  | .magic prefixes trim => simp [pinnedSha256s,withoutSha256]
  | .all checks =>
    simp only [pinnedSha256s,withoutSha256,Accepts]
    exact acceptsAll_iff_pins checks

theorem acceptsAll_iff_pins (checks : List ContentCheck) :
    AcceptsAll H body checks ↔ (∀ pin ∈ pinnedSha256ss checks, pin = H.hex body) ∧
      AcceptsAll H body (withoutSha256s checks) := by
  match checks with
  | [] => simp [pinnedSha256ss,withoutSha256s,AcceptsAll]
  | check :: checks =>
    simp only [pinnedSha256ss,withoutSha256s,AcceptsAll,List.mem_append,or_imp,forall_and]
    rw [accepts_iff_pins check,acceptsAll_iff_pins checks]
    exact and_and_and_comm

end

theorem dropWhile_prefix {l l' : Bytes} (p : UInt8 → Bool) (h : l <+: l') :
    l.dropWhile p <+: l'.dropWhile p := by
  obtain ⟨s,rfl⟩ := h
  induction l with
  | nil => exact List.nil_prefix
  | cons b l ih =>
    simp only [List.cons_append,List.dropWhile_cons]
    split
    · exact ih
    · exact ⟨s,rfl⟩

theorem trimmed_prefix {l l' : Bytes} (trim : Bool) (h : l <+: l') :
    trimmed trim l <+: trimmed trim l' := by
  cases trim with
  | false => exact h
  | true => exact dropWhile_prefix _ h

mutual

/-- Whatever a body that satisfies the check begins with passes the early check. -/
theorem checkPrefix_cut {head : Bytes} (c : ContentCheck) (hpre : head <+: body)
    (h : c.Accepts H body) : c.checkPrefix H head = .ok () := by
  match c with
  | .none => rfl
  | .minBytes min => rfl
  | .sha256 digest => rfl
  | .custom f => rfl
  | .notHtml =>
    have hhead : looksHtml (head.take 8192) = false := by
      rw [← Bool.not_eq_true]
      intro hhtml
      have := looksHtml_prefix (hpre.take 8192) hhtml
      rw [h] at this
      cases this
    simp only [checkPrefix,check,checkReader,hhead]
    rfl
  | .magic prefixes trim =>
    obtain ⟨-,-,p,hp,hbody⟩ := h
    have hhead := trimmed_prefix trim hpre
    have hany : (prefixes.any fun p => p.isPrefixOf (trimmed trim head) ||
        (trimmed trim head).isPrefixOf p) = true := by
      refine List.any_eq_true.mpr ⟨p,hp,?_⟩
      simp only [Bool.or_eq_true,List.isPrefixOf_iff_prefix]
      exact List.prefix_or_prefix_of_prefix hbody hhead
    unfold trimmed at hany
    simp [checkPrefix,hany]
  | .all checks => exact checkPrefixes_cut checks hpre h

theorem checkPrefixes_cut {head : Bytes} (checks : List ContentCheck) (hpre : head <+: body)
    (h : AcceptsAll H body checks) : checkPrefixes H head checks = .ok () := by
  match checks with
  | [] => rfl
  | check :: checks =>
    exact bind_ok_iff.mpr ⟨checkPrefix_cut check hpre h.1,
      checkPrefixes_cut checks hpre h.2⟩

end

/-- The first bytes of a body that satisfies the check pass the early check. -/
theorem checkPrefix_of_accepts (c : ContentCheck) (h : c.Accepts H body) :
    c.checkPrefix H (body.take 8192) = .ok () :=
  checkPrefix_cut c (List.take_prefix 8192 body) h

/-- The early check never refuses what a body begins with that would be accepted, wherever
the body is cut. -/
theorem checkPrefix_sound (H : Sha256) (c : ContentCheck) (head rest : Bytes) :
    (c.check H (head++rest) = .ok () → c.checkPrefix H head = .ok ()) ∧
    (c.checkFile H (head++rest) = .ok () → c.checkPrefix H head = .ok ()) ∧
    ∀ e, c.checkPrefix H head = .error e →
      (∃ e', c.check H (head++rest) = .error e') ∧ ∃ e', c.checkFile H (head++rest) = .error e' := by
  have hpre := List.prefix_append head rest
  refine ⟨fun h => checkPrefix_cut c hpre (check_iff.mp h),
    fun h => checkPrefix_cut c hpre (checkFile_iff.mp h),fun e he => ⟨?_,?_⟩⟩
  · cases hc : c.check H (head++rest) with
    | error e' => exact ⟨e',rfl⟩
    | ok u =>
      rw [checkPrefix_cut c hpre (check_iff.mp hc)] at he
      cases he
  · cases hc : c.checkFile H (head++rest) with
    | error e' => exact ⟨e',rfl⟩
    | ok u =>
      rw [checkPrefix_cut c hpre (checkFile_iff.mp hc)] at he
      cases he

end ContentCheck
end StarfieldDatastore
