import StarfieldDatastore.Check

/-! The HTML test on a prefix: what is found there stands in every longer body as well. -/
namespace StarfieldDatastore

namespace Utf8

/-- Where the input is cut, a character is read as it was, or it is the last one read. -/
theorem decodeChar_append (b : UInt8) (l s : Bytes) :
    ((decodeChar b l).1 = (decodeChar b (l++s)).1 ∧ (decodeChar b l).2 <+: (decodeChar b (l++s)).2) ∨
      decodeChar b l = ('\uFFFD',[]) := by
  unfold decodeChar
  by_cases h1 : b < 0x80
  · simp only [h1,if_true]
    exact .inl ⟨trivial,List.prefix_append l s⟩
  simp only [h1,if_false]
  by_cases h2 : (0xc2 ≤ b && b ≤ 0xdf) = true
  · simp only [h2,if_true]
    match l with
    | [] => exact .inr rfl
    | b1 :: l =>
      simp only [within,List.cons_append,List.drop_succ_cons,List.drop_zero,List.getD_cons_zero]
      left
      split <;> exact ⟨rfl,s,rfl⟩
  simp only [h2,Bool.false_eq_true,if_false]
  by_cases h3 : (0xe0 ≤ b && b ≤ 0xef) = true
  · simp only [h3,if_true]
    generalize (if b == 0xe0 then (0xa0 : UInt8) else 0x80) = lo
    generalize (if b == 0xed then (0x9f : UInt8) else 0xbf) = hi
    match l with
    | [] => exact .inr rfl
    | b1 :: l =>
      simp only [within,List.cons_append,List.drop_succ_cons,List.drop_zero,List.getD_cons_zero,
        List.getD_cons_succ]
      split
      · match l with
        | [] => exact .inr rfl
        | b2 :: l =>
          simp only [List.cons_append,List.drop_succ_cons,List.drop_zero,List.getD_cons_zero]
          left
          split <;> exact ⟨rfl,s,rfl⟩
      · exact .inl ⟨rfl,s,rfl⟩
  simp only [h3,Bool.false_eq_true,if_false]
  by_cases h4 : (0xf0 ≤ b && b ≤ 0xf4) = true
  · simp only [h4,if_true]
    generalize (if b == 0xf0 then (0x90 : UInt8) else 0x80) = lo
    generalize (if b == 0xf4 then (0x8f : UInt8) else 0xbf) = hi
    match l with
    | [] => exact .inr rfl
    | b1 :: l =>
      simp only [within,List.cons_append,List.drop_succ_cons,List.drop_zero,List.getD_cons_zero,
        List.getD_cons_succ]
      split
      · match l with
        | [] => exact .inr rfl
        | b2 :: l =>
          simp only [List.cons_append,List.drop_succ_cons,List.drop_zero,
            List.getD_cons_zero,List.getD_cons_succ]
          split
          · match l with
            | [] => exact .inr rfl
            | b3 :: l =>
              simp only [List.cons_append,List.drop_succ_cons,List.drop_zero,
                List.getD_cons_zero]
              left
              split <;> exact ⟨rfl,s,rfl⟩
          · exact .inl ⟨rfl,s,rfl⟩
      · exact .inl ⟨rfl,s,rfl⟩
  · simp only [h4,Bool.false_eq_true,if_false]
    exact .inl ⟨trivial,s,rfl⟩

theorem decodeChar_length (b : UInt8) (l : Bytes) : (decodeChar b l).2.length ≤ l.length := by
  unfold decodeChar
  dsimp only
  generalize (if b == 0xe0 then (0xa0 : UInt8) else 0x80) = lo
  generalize (if b == 0xed then (0x9f : UInt8) else 0xbf) = hi
  generalize (if b == 0xf0 then (0x90 : UInt8) else 0x80) = lo'
  generalize (if b == 0xf4 then (0x8f : UInt8) else 0xbf) = hi'
  split_ifs <;> simp

/-- A prefix is decoded like the whole, up to one replacement character at its end. -/
theorem decodeLossy_append (n m : ℕ) (l s : Bytes) (hn : l.length ≤ n) (hm : (l++s).length ≤ m) :
    ∃ text cut rest, decodeLossy n l = text++cut ∧ decodeLossy m (l++s) = text++rest ∧
      (cut = [] ∨ cut = ['\uFFFD']) := by
  induction n generalizing m l s with
  | zero => exact ⟨[],[],decodeLossy m (l++s),rfl,rfl,.inl rfl⟩
  | succ n ih =>
    match l with
    | [] => exact ⟨[],[],decodeLossy m ([]++s),rfl,rfl,.inl rfl⟩
    | b :: l =>
      obtain ⟨m,rfl⟩ : ∃ k, m = k+1 := ⟨m-1,by simp at hm; omega⟩
      rw [List.cons_append,decodeLossy,decodeLossy]
      obtain ⟨hc,s',hs⟩|hcut := decodeChar_append b l s
      · have hlen := decodeChar_length b l
        have hlen' := decodeChar_length b (l++s)
        rw [← hs] at hlen'
        obtain ⟨text,cut,rest,h,h',hcut⟩ := ih m (decodeChar b l).2 s'
          (by simp at hn; omega) (by simp at hm hlen' ⊢; omega)
        rw [h,← hs,h',hc]
        exact ⟨_::text,cut,rest,rfl,rfl,hcut⟩
      · rw [hcut]
        refine ⟨[],['\uFFFD'],_,?_,rfl,.inr rfl⟩
        cases n <;> rfl

end Utf8

theorem fromUtf8Lossy_append (l s : Bytes) : ∃ text cut rest, fromUtf8Lossy l = text++cut ∧
    fromUtf8Lossy (l++s) = text++rest ∧ (cut = [] ∨ cut = ['\uFFFD']) :=
  Utf8.decodeLossy_append _ _ l s (Nat.le_refl _) (Nat.le_refl _)

/-- Without byte order marks and white space in front. -/
def stripped (text : List Char) : List Char :=
  (text.dropWhile (· == '\uFEFF')).dropWhile isWhitespace

/-- The beginnings and the words that give HTML away. -/
def marked (text : List Char) : Bool :=
  "<!doctype html".toList.isPrefixOf text || "<html".toList.isPrefixOf text ||
    "<head".toList.isPrefixOf text || "<body".toList.isPrefixOf text ||
    contains text "<form".toList || contains text "<html".toList

theorem looksHtml_eq (head : Bytes) :
    looksHtml head = marked (stripped ((fromUtf8Lossy head).map Char.toLower)) := rfl

theorem contains_iff {text needle : List Char} : contains text needle = true ↔ needle <:+: text := by
  rw [contains,List.any_eq_true,List.infix_iff_prefix_suffix]
  refine exists_congr fun t => ?_
  rw [List.mem_tails,List.isPrefixOf_iff_prefix,and_comm]

/-- What HTML begins with. -/
def beginnings : List (List Char) :=
  ["<!doctype html".toList,"<html".toList,"<head".toList,"<body".toList]

/-- What gives a login page away wherever it stands. -/
def signs : List (List Char) := ["<form".toList,"<html".toList]

theorem uncut : ∀ needle ∈ beginnings++signs, needle ≠ [] ∧ '\uFFFD' ∉ needle := by decide

theorem marked_iff {text : List Char} : marked text = true ↔
    (∃ needle ∈ beginnings, needle <+: text) ∨ ∃ needle ∈ signs, needle <:+: text := by
  simp only [marked,beginnings,signs,Bool.or_eq_true,contains_iff,List.isPrefixOf_iff_prefix,List.mem_cons,
    List.not_mem_nil,or_false,exists_eq_or_imp,exists_eq_left,or_assoc]

theorem marked_append {text : List Char} (h : marked text = true) (more : List Char) :
    marked (text++more) = true := by
  rw [marked_iff] at h ⊢
  obtain ⟨needle,hn,h⟩|⟨needle,hn,h⟩ := h
  · exact .inl ⟨needle,hn,h.trans (List.prefix_append text more)⟩
  · exact .inr ⟨needle,hn,h.trans (List.prefix_append text more).isInfix⟩

/-- A replacement character at the end is part of no mark. -/
theorem marked_cut {text : List Char} (h : marked (text++['\uFFFD']) = true) :
    marked text = true := by
  rw [marked_iff] at h ⊢
  obtain ⟨needle,hn,h⟩|⟨needle,hn,h⟩ := h
  · obtain h|h := List.prefix_concat_iff.mp h
    · exact absurd (by simp [h]) (uncut needle (by simp [hn])).2
    · exact .inl ⟨needle,hn,h⟩
  · obtain h|h := List.infix_concat_iff.mp h
    · obtain h|⟨t,h,-⟩ := List.suffix_concat_iff.mp h
      · exact absurd h (uncut needle (by simp [hn])).1
      · exact absurd (by simp [h]) (uncut needle (by simp [hn])).2
    · exact .inr ⟨needle,hn,h⟩

theorem stripped_append {text : List Char} (h : stripped text ≠ []) (more : List Char) :
    stripped (text++more) = stripped text++more := by
  unfold stripped at h ⊢
  have hmark : text.dropWhile (· == '\uFEFF') ≠ [] := fun e => h (by rw [e]; rfl)
  rw [List.dropWhile_append,if_neg (by simpa using hmark),List.dropWhile_append,
    if_neg (by simpa using h)]

theorem stripped_cut (text : List Char) :
    stripped (text++['\uFFFD']) = stripped text++['\uFFFD'] := by
  unfold stripped
  rw [List.dropWhile_append]
  split
  next h =>
    rw [List.isEmpty_iff.mp h]
    decide
  next h =>
    rw [List.dropWhile_append]
    split
    next h' =>
      rw [List.isEmpty_iff.mp h']
      decide
    next h' => rfl

/-- HTML that is seen in a prefix is seen in the body. -/
theorem looksHtml_prefix {head body : Bytes} (hpre : head <+: body) (h : looksHtml head = true) :
    looksHtml body = true := by
  obtain ⟨more,rfl⟩ := hpre
  obtain ⟨text,cut,rest,hhead,hbody,hcut⟩ := fromUtf8Lossy_append head more
  rw [looksHtml_eq,hhead,List.map_append] at h
  rw [looksHtml_eq,hbody,List.map_append]
  have hmarked : marked (stripped (text.map Char.toLower)) = true := by
    obtain rfl|rfl := hcut
    · simpa using h
    · rw [show ['\uFFFD'].map Char.toLower = ['\uFFFD'] from by decide,stripped_cut] at h
      exact marked_cut h
  have hne : stripped (text.map Char.toLower) ≠ [] := by
    intro e
    rw [e] at hmarked
    revert hmarked
    decide
  rw [stripped_append hne]
  exact marked_append hmarked _

end StarfieldDatastore
