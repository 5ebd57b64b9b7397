import StarfieldDatastore.S3

/-! The parts of a multipart upload: their numbers, their ranges, and the arithmetic of the
loop in `u64`. -/
namespace StarfieldDatastore

namespace U64

/-- `a + b`, unless it overflows. -/
def add (a b : ℕ) : Option ℕ := if a+b < 2^64 then some (a+b) else none

/-- `a - b`, unless it overflows. -/
def sub (a b : ℕ) : Option ℕ := if b ≤ a then some (a-b) else none

/-- `u64::div_ceil`. -/
def divCeil (a b : ℕ) : Option ℕ := if a%b > 0 then add (a/b) 1 else some (a/b)

theorem add_eq_some {a b c : ℕ} (h : add a b = some c) : c = a+b := by
  rw [add] at h
  split at h <;> cases h
  rfl

theorem sub_eq_some {a b c : ℕ} (h : sub a b = some c) : c = a-b := by
  rw [sub] at h
  split at h <;> cases h
  rfl

theorem divCeil_eq {a b : ℕ} (ha : a < 2^64) (hb : 1 < b) : divCeil a b = some ((a+(b-1))/b) := by
  have hmod := Nat.div_add_mod a b
  have hlt := Nat.mod_lt a (by omega : 0 < b)
  rw [divCeil]
  split
  next hpos =>
    have hq : a/b < a := Nat.div_lt_self (by
      by_contra h0
      rw [Nat.eq_zero_of_not_pos h0] at hpos
      simp at hpos) hb
    rw [add,if_pos (by omega)]
    congr 1
    rw [eq_comm,Nat.div_eq_iff (by omega)]
    rw [Nat.add_mul,Nat.mul_comm]
    omega
  next hzero =>
    congr 1
    rw [eq_comm,Nat.div_eq_iff (by omega)]
    rw [Nat.mul_comm]
    omega

end U64

/-- One `UploadPart`: its number, and the range of the file that it sends. -/
structure PartRange where
  number : ℕ
  offset : ℕ
  length : ℕ
  deriving DecidableEq, Repr

namespace S3Mirror

/-- The loop over the parts; `none` on an overflow, and when it has not ended in time. -/
def partLoop (size bytes : ℕ) : ℕ → ℕ → ℕ → Option (List PartRange)
  | 0, offset, _ => if offset < bytes then none else some []
  | fuel+1, offset, count =>
    if offset < bytes then do
      let left ← U64.sub bytes offset
      let length := min size left
      let number ← U64.add count 1
      if number ≥ 2^31 then none
      else
        let next ← U64.add offset length
        let rest ← partLoop size bytes fuel next number
        return ⟨number,offset,length⟩::rest
    else some []

/-- The parts of an object, if the loop ends after `fuel` parts. -/
def partRanges (fuel bytes : ℕ) : Option (List PartRange) := do
  let share ← U64.divCeil bytes 10000
  partLoop (max partBytes share) bytes fuel 0 0

/-- The `i`-th part of an object in parts of one size. -/
def rangeAt (size bytes i : ℕ) : PartRange := ⟨i+1,i*size,min size (bytes-i*size)⟩

/-- With `rest` parts left, the loop sends one after the other. -/
theorem partLoop_rangeAt {size bytes : ℕ} (hbytes : bytes < 2^64) (hmax : bytes ≤ 10000*size)
    (rest fuel i : ℕ) (hfuel : rest ≤ fuel) (hend : bytes ≤ (i+rest)*size)
    (hlast : ∀ j, j+1 = rest → (i+j)*size < bytes) :
    partLoop size bytes fuel (min (i*size) bytes) i =
      some ((List.range' i rest).map (rangeAt size bytes)) := by
  induction rest generalizing fuel i with
  | zero =>
    have hoffset : ¬ min (i*size) bytes < bytes := by
      rw [Nat.add_zero] at hend
      omega
    cases fuel <;> simp only [partLoop,if_neg hoffset] <;> rfl
  | succ rest ih =>
    have hrest : (i+rest)*size < bytes := hlast rest rfl
    have hi : i*size ≤ (i+rest)*size := Nat.mul_le_mul_right size (Nat.le_add_right i rest)
    have hcount : i+rest < 10000 := by
      by_contra hge
      have := Nat.mul_le_mul_right size (Nat.le_of_not_lt hge)
      omega
    obtain ⟨fuel,rfl⟩ : ∃ f, fuel = f+1 := ⟨fuel-1,by omega⟩
    have hoffset : min (i*size) bytes = i*size := by omega
    have hnext : i*size+min size (bytes-i*size) = min ((i+1)*size) bytes := by
      rw [Nat.succ_mul]
      omega
    have hstep := ih fuel (i+1) (by omega) (by rw [Nat.add_right_comm]; exact hend) fun j hj => by
      subst hj
      rw [Nat.add_right_comm]
      exact hrest
    rw [partLoop,hoffset,if_pos (by omega),U64.sub,if_pos (by omega)]
    simp only [Option.bind_eq_bind,Option.bind_some]
    rw [U64.add,if_pos (by omega)]
    simp only [Option.bind_some]
    rw [if_neg (by omega),U64.add,if_pos (by omega),hnext]
    simp only [Option.bind_some]
    rw [hstep]
    rfl

theorem partLoop_more {size bytes fuel fuel' offset count : ℕ} {parts : List PartRange}
    (h : partLoop size bytes fuel offset count = some parts) (hle : fuel ≤ fuel') :
    partLoop size bytes fuel' offset count = some parts := by
  induction fuel generalizing fuel' offset count parts with
  | zero =>
    rw [partLoop] at h
    split at h
    · cases h
    next hoffset =>
      cases fuel' <;> rw [partLoop,if_neg hoffset] <;> exact h
  | succ fuel ih =>
    obtain ⟨fuel',rfl⟩ : ∃ f, fuel' = f+1 := ⟨fuel'-1,by omega⟩
    rw [partLoop] at h ⊢
    split at h
    next hoffset =>
      rw [if_pos hoffset]
      simp only [Option.bind_eq_bind,Option.bind_eq_some_iff] at h ⊢
      obtain ⟨left,hleft,number,hnumber,h⟩ := h
      refine ⟨left,hleft,number,hnumber,?_⟩
      split at h
      · cases h
      next hsmall =>
        rw [if_neg hsmall]
        simp only [Option.bind_eq_some_iff] at h ⊢
        obtain ⟨next,hnext,rest,hrest,h⟩ := h
        exact ⟨next,hnext,rest,ih hrest (by omega),h⟩
    next hoffset =>
      rw [if_neg hoffset]
      exact h

section ranges
variable {size bytes last : ℕ}

theorem getElem_ranges {i : ℕ} {p : PartRange} :
    ((List.range (last+1)).map (rangeAt size bytes))[i]? = some p ↔
      i ≤ last ∧ p = rangeAt size bytes i := by
  rw [List.getElem?_eq_some_iff]
  simp only [List.getElem_map,List.getElem_range,List.length_map,List.length_range]
  constructor
  · intro ⟨hi,hp⟩
    exact ⟨by omega,hp.symm⟩
  · intro ⟨hi,hp⟩
    exact ⟨by omega,hp.symm⟩

theorem mem_ranges {p : PartRange} : p ∈ (List.range (last+1)).map (rangeAt size bytes) ↔
    ∃ i ≤ last, p = rangeAt size bytes i := by
  simp only [List.mem_map,List.mem_range]
  constructor
  · intro ⟨i,hi,hp⟩
    exact ⟨i,by omega,hp.symm⟩
  · intro ⟨i,hi,hp⟩
    exact ⟨i,by omega,hp.symm⟩

/-- A part that is not the last one is whole. -/
theorem rangeAt_whole {i : ℕ} (hlast : last*size < bytes) (hi : i < last) :
    (rangeAt size bytes i).length = size := by
  have := Nat.mul_le_mul_right size hi
  rw [Nat.succ_mul] at this
  simp only [rangeAt]
  omega

theorem rangeAt_inside {i : ℕ} (hsize : 0 < size) (hlast : last*size < bytes) (hi : i ≤ last) :
    0 < (rangeAt size bytes i).length ∧
      (rangeAt size bytes i).offset+(rangeAt size bytes i).length ≤ bytes := by
  have := Nat.mul_le_mul_right size hi
  simp only [rangeAt]
  omega

/-- A byte is in the part that its offset falls into. -/
theorem rangeAt_covers {i b : ℕ} (hb : b < bytes) (hsize : 0 < size) :
    (rangeAt size bytes i).offset ≤ b ∧
      b < (rangeAt size bytes i).offset+(rangeAt size bytes i).length ↔ i = b/size := by
  simp only [rangeAt]
  rw [eq_comm,Nat.div_eq_iff hsize]
  omega

end ranges

/-- What the loop does with a list of parts. -/
def sendParts (m : S3Mirror) (key : ArtifactKey) (blob : Bytes) (id : String) :
    List PartRange → List CompletedPart → S3Op (List CompletedPart)
  | [], parts => return parts
  | p :: ps, parts => do
    match ← s3 .file with
    | .error _ => throw (mirrorError "cannot read multipart body")
    | .ok () =>
      match ← s3 (.uploadPart (m.path key) id p.number ((blob.drop p.offset).take p.length)) with
      | .error f => throw (m.failure key "UploadPart" f)
      | .ok (none,_) => throw (mirrorError "upload part has no ETag")
      | .ok (some _,none) => throw (mirrorError "upload part has no CRC32 checksum")
      | .ok (some etag,some checksum) =>
        sendParts m key blob id ps (parts++[⟨p.number,etag,checksum⟩])

/-- The upload sends the parts of the loop and no others. -/
theorem uploadParts_eq {m : S3Mirror} {key : ArtifactKey} {blob : Bytes} {id : String}
    {bytes fuel offset : ℕ} {ranges : List PartRange} (parts : List CompletedPart)
    (h : partLoop (partSize bytes) bytes fuel offset parts.length = some ranges) :
    m.uploadParts key blob bytes id fuel offset parts = m.sendParts key blob id ranges parts := by
  induction fuel generalizing offset ranges parts with
  | zero =>
    rw [partLoop] at h
    split at h
    · cases h
    · cases h
      rfl
  | succ fuel ih =>
    rw [partLoop] at h
    split at h
    next hoffset =>
      simp only [Option.bind_eq_bind,Option.bind_eq_some_iff] at h
      obtain ⟨left,hleft,number,hnumber,h⟩ := h
      split at h
      · cases h
      next hsmall =>
        simp only [Option.bind_eq_some_iff] at h
        obtain ⟨next,hnext,rest,hrest,h⟩ := h
        cases h
        cases U64.sub_eq_some hleft
        cases U64.add_eq_some hnumber
        cases U64.add_eq_some hnext
        rw [uploadParts,if_pos hoffset,sendParts]
        simp only [if_neg hsmall]
        congr 1
        funext opened
        cases opened with
        | error e => rfl
        | ok u =>
          dsimp only
          congr 1
          funext reply
          match reply with
          | .error f => rfl
          | .ok (none,_) => rfl
          | .ok (some _,none) => rfl
          | .ok (some etag,some checksum) =>
            exact ih (parts++[⟨parts.length+1,etag,checksum⟩]) (by simpa using hrest)
    next hoffset =>
      cases h
      rw [uploadParts,if_neg hoffset]
      rfl

section size
variable {bytes last : ℕ}

/-- With the part size of an object, 10000 parts are enough. -/
theorem last_lt (hlast : last*partSize bytes < bytes) : last < 10000 := by
  have hmax : bytes ≤ 10000*partSize bytes := by
    unfold partSize
    omega
  by_contra hge
  have := Nat.mul_le_mul_right (partSize bytes) (Nat.le_of_not_lt hge)
  omega

theorem partLoop_ranges (h : bytes < 2^64) (hlast : last*partSize bytes < bytes)
    (hend : bytes ≤ (last+1)*partSize bytes) : partLoop (partSize bytes) bytes 10000 0 0 =
      some ((List.range (last+1)).map (rangeAt (partSize bytes) bytes)) := by
  have hmax : bytes ≤ 10000*partSize bytes := by
    unfold partSize
    omega
  have hcount := last_lt hlast
  have hloop := partLoop_rangeAt h hmax (last+1) 10000 0 (by omega) (by rwa [Nat.zero_add])
    fun j hj => by
      obtain rfl : j = last := by omega
      rwa [Nat.zero_add]
  rw [List.range_eq_range']
  simpa using hloop

/-- Parts that make up an object: numbered from 1, one behind the other, all but the last of
the part size. -/
structure Divides (parts : List PartRange) (bytes : ℕ) : Prop where
  few : parts.length ≤ 10000
  numbered : ∀ i p, parts[i]? = some p → p.number = i+1
  inside : ∀ p ∈ parts, 0 < p.length ∧ p.offset+p.length ≤ bytes
  adjacent : ∀ i p q, parts[i]? = some p → parts[i+1]? = some q → q.offset = p.offset+p.length
  whole : ∀ i p q, parts[i]? = some p → parts[i+1]? = some q →
    p.length = max partBytes ((bytes+9999)/10000)
  bounded : ∀ p ∈ parts, p.length ≤ max partBytes ((bytes+9999)/10000)
  covering : ∀ b < bytes, ∃! p, p ∈ parts ∧ p.offset ≤ b ∧ b < p.offset+p.length

theorem divides_ranges (hsize : 0 < partSize bytes) (hdef : last = (bytes-1)/partSize bytes)
    (hlast : last*partSize bytes < bytes) :
    Divides ((List.range (last+1)).map (rangeAt (partSize bytes) bytes)) bytes where
  few := by
    rw [List.length_map,List.length_range]
    exact last_lt hlast
  numbered i p hp := by
    obtain ⟨hi,rfl⟩ := getElem_ranges.mp hp
    rfl
  inside p hp := by
    obtain ⟨i,hi,rfl⟩ := mem_ranges.mp hp
    exact rangeAt_inside hsize hlast hi
  adjacent i p q hp hq := by
    obtain ⟨hi,rfl⟩ := getElem_ranges.mp hp
    obtain ⟨hi',rfl⟩ := getElem_ranges.mp hq
    rw [rangeAt_whole hlast (Nat.lt_of_succ_le hi')]
    exact Nat.succ_mul i _
  whole i p q hp hq := by
    obtain ⟨hi,rfl⟩ := getElem_ranges.mp hp
    exact rangeAt_whole hlast (Nat.lt_of_succ_le (getElem_ranges.mp hq).1)
  bounded p hp := by
    obtain ⟨i,hi,rfl⟩ := mem_ranges.mp hp
    exact Nat.min_le_left _ _
  covering b hb := by
    refine ⟨rangeAt (partSize bytes) bytes (b/partSize bytes),
      ⟨mem_ranges.mpr ⟨_,?_,rfl⟩,(rangeAt_covers hb hsize).mpr rfl⟩,?_⟩
    · rw [hdef]
      exact Nat.div_le_div_right (by omega)
    · intro p ⟨hp,hin⟩
      obtain ⟨i,hi,rfl⟩ := mem_ranges.mp hp
      rw [(rangeAt_covers hb hsize).mp hin]

end size

/-- Every object that is sent in parts, up to the largest size there is. -/
theorem partRanges_spec {bytes : ℕ} (hbytes : partBytes < bytes) (h : bytes < 2^64) :
    ∃ parts, partRanges 10000 bytes = some parts ∧ Divides parts bytes ∧
      ∀ (m : S3Mirror) (key : ArtifactKey) (blob : Bytes) (id : String),
        m.uploadParts key blob bytes id bytes 0 [] = m.sendParts key blob id parts [] := by
  have hsize : 0 < partSize bytes := by
    unfold partSize partBytes
    omega
  obtain ⟨last,hdef⟩ : ∃ last, last = (bytes-1)/partSize bytes := ⟨_,rfl⟩
  have hlast : last*partSize bytes < bytes := by
    have := Nat.div_mul_le_self (bytes-1) (partSize bytes)
    rw [← hdef] at this
    omega
  have hend : bytes ≤ (last+1)*partSize bytes := by
    have := Nat.lt_div_mul_add (a := bytes-1) hsize
    rw [← hdef] at this
    rw [Nat.succ_mul]
    omega
  have hloop := partLoop_ranges h hlast hend
  have hparts : partRanges 10000 bytes =
      some ((List.range (last+1)).map (rangeAt (partSize bytes) bytes)) := by
    rw [partRanges,U64.divCeil_eq h (by omega)]
    exact hloop
  refine ⟨_,hparts,divides_ranges hsize hdef hlast,?_⟩
  intro m key blob id
  apply uploadParts_eq
  refine partLoop_more hloop ?_
  unfold partBytes at hbytes
  omega

/-- The largest object. -/
theorem partRanges_spec_largest :
    ∃ parts, partRanges 10000 18446744073709551615 = some parts ∧
      Divides parts 18446744073709551615 ∧
      ∀ (m : S3Mirror) (key : ArtifactKey) (blob : Bytes) (id : String),
        m.uploadParts key blob 18446744073709551615 id 18446744073709551615 0 [] =
          m.sendParts key blob id parts [] :=
  partRanges_spec (by decide) (by decide)

end S3Mirror
end StarfieldDatastore
