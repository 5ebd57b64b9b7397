import Mathlib.Data.List.Nodup

/-! Lists whose elements have keys: replacing in place, and laying one list over another. -/
namespace StarfieldDatastore.KeyedList
variable {α κ : Type} [DecidableEq κ] (key : α → κ)

/-- Replaces the first element that has the key of `x`, or appends `x`. -/
def put (x : α) : List α → List α
  | [] => [x]
  | y :: ys => if key y = key x then x::ys else y::put x ys

/-- Puts the elements of a second list one after the other. -/
def overlay (l l' : List α) : List α := l'.foldl (fun l x => put key x l) l

/-- The first element with a key. -/
def lookup (k : κ) (l : List α) : Option α := l.find? (key · = k)

theorem lookup_cons (k : κ) (x : α) (l : List α) :
    lookup key k (x::l) = if key x = k then some x else lookup key k l := by
  by_cases h : key x = k <;> simp [lookup,h]

theorem lookup_eq_none {k : κ} {l : List α} : lookup key k l = none ↔ k ∉ l.map key := by
  simp [lookup]

theorem keys_put (x : α) (l : List α) :
    (put key x l).map key = if key x ∈ l.map key then l.map key else l.map key++[key x] := by
  induction l with
  | nil => simp [put]
  | cons y ys ih =>
    rw [put]
    by_cases h : key y = key x
    · simp [h]
    · rw [if_neg h,List.map_cons,ih]
      by_cases hm : key x ∈ ys.map key <;> simp [hm,Ne.symm h]

theorem lookup_put (k : κ) (x : α) (l : List α) :
    lookup key k (put key x l) = if key x = k then some x else lookup key k l := by
  induction l with
  | nil => rw [put,lookup_cons]
  | cons y ys ih =>
    rw [put]
    by_cases h : key y = key x
    · rw [if_pos h,lookup_cons,lookup_cons,h]
      by_cases hk : key x = k <;> simp [hk]
    · rw [if_neg h,lookup_cons,lookup_cons,ih]
      by_cases hk : key x = k
      · simp [hk,hk ▸ h]
      · simp [hk]

theorem overlay_cons (l : List α) (x : α) (l' : List α) :
    overlay key l (x::l') = overlay key (put key x l) l' := rfl

theorem overlay_nil (l : List α) : overlay key l [] = l := rfl

section
variable {key} {l l' l'' : List α}

/-- The keys of both lists, those of the second only where they are new. -/
theorem keys_overlay (h : (l'.map key).Nodup) :
    (overlay key l l').map key = l.map key++(l'.map key).filter (· ∉ l.map key) := by
  induction l' generalizing l with
  | nil => simp [overlay_nil]
  | cons x l' ih =>
    rw [List.map_cons,List.nodup_cons] at h
    rw [overlay_cons,ih h.2,keys_put,List.map_cons,List.filter_cons]
    by_cases hx : key x ∈ l.map key
    · simp [hx]
    · have hnew : ∀ k ∈ l'.map key, (k ∉ l.map key++[key x]) = (k ∉ l.map key) := by
        intro k hk
        have hkx : k ≠ key x := fun e => h.1 (e ▸ hk)
        simp [hkx]
      simp only [hx,if_false,not_false_eq_true,decide_true,if_true,List.append_assoc,
        List.singleton_append]
      congr 2
      exact List.filter_congr fun k hk => by simp only [hnew k hk]

theorem nodup_overlay (hl : (l.map key).Nodup) (h : (l'.map key).Nodup) :
    ((overlay key l l').map key).Nodup := by
  rw [keys_overlay h]
  refine List.Nodup.append hl (h.filter _) fun k hk hk' => ?_
  exact absurd hk (by simpa using (List.mem_filter.mp hk').2)

/-- An element of the second list hides the one of the first. -/
theorem lookup_overlay (h : (l'.map key).Nodup) (k : κ) :
    lookup key k (overlay key l l') = (lookup key k l').or (lookup key k l) := by
  induction l' generalizing l with
  | nil => rfl
  | cons x l' ih =>
    rw [List.map_cons,List.nodup_cons] at h
    rw [overlay_cons,ih h.2,lookup_put,lookup_cons]
    by_cases hk : key x = k
    · rw [(lookup_eq_none key).mpr (hk ▸ h.1)]
      simp [hk]
    · simp [hk]

/-- Lists with distinct keys are determined by the order of the keys and by the lookups. -/
theorem ext_of_lookup (hl : (l.map key).Nodup) (hk : l.map key = l'.map key)
    (h : ∀ k, lookup key k l = lookup key k l') : l = l' := by
  induction l generalizing l' with
  | nil => exact (List.map_eq_nil_iff.mp hk.symm).symm
  | cons x l ih =>
    cases l' with
    | nil => cases hk
    | cons y l' =>
      rw [List.map_cons,List.map_cons,List.cons.injEq] at hk
      obtain ⟨hxy,hk⟩ := hk
      rw [List.map_cons,List.nodup_cons] at hl
      have hx : x = y := by
        have := h (key x)
        rw [lookup_cons,lookup_cons,if_pos rfl,if_pos hxy.symm] at this
        exact Option.some.inj this
      subst hx
      congr 1
      refine ih hl.2 hk fun k => ?_
      by_cases hkx : key x = k
      · rw [(lookup_eq_none key).mpr (hkx ▸ hl.1),(lookup_eq_none key).mpr (hkx ▸ hk ▸ hl.1)]
      · have := h k
        rwa [lookup_cons,lookup_cons,if_neg hkx,if_neg hkx] at this

theorem overlay_assoc (hl : (l.map key).Nodup) (h' : (l'.map key).Nodup)
    (h'' : (l''.map key).Nodup) :
    overlay key l (overlay key l' l'') = overlay key (overlay key l l') l'' := by
  have hinner := nodup_overlay h' h''
  apply ext_of_lookup (nodup_overlay hl hinner)
  · rw [keys_overlay hinner,keys_overlay h'',keys_overlay h'',keys_overlay h',
      List.filter_append,List.append_assoc,List.filter_filter]
    congr 2
    refine List.filter_congr fun k _ => ?_
    by_cases hk : k ∈ l.map key <;> by_cases hk' : k ∈ l'.map key <;> simp [-List.mem_map,hk,hk']
  · intro k
    rw [lookup_overlay hinner,lookup_overlay h'',lookup_overlay h'',lookup_overlay h',
      Option.or_assoc]

/-- A list that has been laid over changes nothing the second time. -/
theorem overlay_idem (hl : (l.map key).Nodup) (h' : (l'.map key).Nodup) :
    overlay key (overlay key l l') l' = overlay key l l' := by
  apply ext_of_lookup (nodup_overlay (nodup_overlay hl h') h')
  · rw [keys_overlay h',keys_overlay h']
    refine (congrArg _ (List.filter_eq_nil_iff.mpr fun k hk => ?_)).trans (List.append_nil _)
    by_cases hm : k ∈ l.map key <;> simp [-List.mem_map,hm,hk]
  · intro k
    rw [lookup_overlay h',lookup_overlay h',← Option.or_assoc,Option.or_self]

theorem nil_overlay (h : (l.map key).Nodup) : overlay key [] l = l := by
  apply ext_of_lookup (nodup_overlay (by simp) h)
  · simp [keys_overlay h]
  · intro k
    rw [lookup_overlay h]
    exact Option.or_none

end

end StarfieldDatastore.KeyedList
