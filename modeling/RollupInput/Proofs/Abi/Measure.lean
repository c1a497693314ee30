import RollupInput.Proofs.Abi.HeadSize

/-!
# Measures of types without empty parts

A type is solid if each of its arrays of fixed size has an element and each of its tuples a field.
For solid types the measures of the reader agree with each other: a value stands behind an offset
exactly if the type counts as dynamic, and no type is made of nothing. How many containers open
inside each other is counted here as well, because the reader stops at a fixed depth.
-/

namespace RollupInput.Abi

namespace AbiType

mutual

/-- Whether every array of fixed size in a type has an element and every tuple a field. -/
def isSolid : AbiType → Bool
  | .array element => isSolid element
  | .fixedArray element size => size != 0 && isSolid element
  | .tuple fields => !fields.isEmpty && allSolid fields
  | _ => true

/-- Whether all of the types are solid. -/
def allSolid : List AbiType → Bool
  | [] => true
  | t :: rest => isSolid t && allSolid rest

end

mutual

/-- How many containers open inside each other to reach the innermost parts of a type. Following
an offset opens one, and so do a tuple or an array of fixed size in place and the contents of an
array of any size. -/
def openings : AbiType → Nat
  | .bytes | .string => 1
  | .array element => openings element + 2
  | .fixedArray element _ => openings element + 1
  | .tuple fields => mostOpenings fields + 1
  | _ => 0

/-- The greatest number of openings among the types. -/
def mostOpenings : List AbiType → Nat
  | [] => 0
  | t :: rest => max (openings t) (mostOpenings rest)

end

mutual

/-- A value of a solid type stands behind an offset exactly if the type counts as dynamic. -/
theorem isIndirect_eq_isDynamic (t : AbiType) (h : t.isSolid = true) :
    t.isIndirect = t.isDynamic := by
  cases t with
  | fixedArray element size =>
    rw [isSolid, Bool.and_eq_true] at h
    rw [isIndirect, isDynamic, h.1, Bool.true_and]
    exact isIndirect_eq_isDynamic element h.2
  | tuple fields =>
    rw [isSolid, Bool.and_eq_true] at h
    rw [isIndirect, isDynamic]
    exact anyIndirect_eq_anyDynamic fields h.2
  | _ => rfl

/-- The same for the types of a list. -/
theorem anyIndirect_eq_anyDynamic (ts : List AbiType) (h : allSolid ts = true) :
    anyIndirect ts = anyDynamic ts := by
  cases ts with
  | nil => rfl
  | cons t rest =>
    rw [allSolid, Bool.and_eq_true] at h
    rw [anyIndirect, anyDynamic, isIndirect_eq_isDynamic t h.1, anyIndirect_eq_anyDynamic rest h.2]

end

mutual

/-- A solid type needs a word. -/
theorem leastWords_pos (t : AbiType) (h : t.isSolid = true) : 0 < t.leastWords := by
  cases t with
  | fixedArray element size =>
    rw [isSolid, Bool.and_eq_true, bne_iff_ne] at h
    rw [leastWords]
    exact Nat.mul_pos (Nat.pos_of_ne_zero h.1) (leastWords_pos element h.2)
  | tuple fields =>
    rw [isSolid, Bool.and_eq_true] at h
    rw [leastWords]
    exact leastWordsSum_pos fields (by simpa using h.1) h.2
  | _ => exact Nat.one_pos

/-- Some solid types need a word. -/
theorem leastWordsSum_pos (ts : List AbiType) (hne : ts ≠ []) (h : allSolid ts = true) :
    0 < leastWordsSum ts := by
  cases ts with
  | nil => exact absurd rfl hne
  | cons t rest =>
    rw [allSolid, Bool.and_eq_true] at h
    have ht := leastWords_pos t h.1
    rw [leastWordsSum]
    omega

end

mutual

/-- A solid type is not made of nothing. -/
theorem isEmpty_eq_false (t : AbiType) (h : t.isSolid = true) : t.isEmpty = false := by
  cases t with
  | array element =>
    rw [isEmpty]
    exact isEmpty_eq_false element h
  | fixedArray element size =>
    rw [isSolid, Bool.and_eq_true, bne_iff_ne] at h
    rw [isEmpty, isEmpty_eq_false element h.2, Bool.or_false]
    exact beq_eq_false_iff_ne.mpr h.1
  | tuple fields =>
    rw [isSolid, Bool.and_eq_true] at h
    rw [isEmpty]
    exact allEmpty_eq_false fields (by simpa using h.1) h.2
  | _ => rfl

/-- Some solid types are not all made of nothing. -/
theorem allEmpty_eq_false (ts : List AbiType) (hne : ts ≠ []) (h : allSolid ts = true) :
    allEmpty ts = false := by
  cases ts with
  | nil => exact absurd rfl hne
  | cons t rest =>
    rw [allSolid, Bool.and_eq_true] at h
    rw [allEmpty, isEmpty_eq_false t h.1, Bool.false_and]

end

mutual

/-- The arrays of fixed size in a solid type have elements. -/
theorem isFilled_of_solid (t : AbiType) (h : t.isSolid = true) : t.isFilled = true := by
  cases t with
  | array element =>
    rw [isFilled]
    exact isFilled_of_solid element h
  | fixedArray element size =>
    rw [isSolid, Bool.and_eq_true] at h
    rw [isFilled, h.1, isFilled_of_solid element h.2]
    rfl
  | tuple fields =>
    rw [isSolid, Bool.and_eq_true] at h
    rw [isFilled]
    exact allFilled_of_solid fields h.2
  | _ => rfl

/-- The arrays of fixed size in solid types have elements. -/
theorem allFilled_of_solid (ts : List AbiType) (h : allSolid ts = true) : allFilled ts = true := by
  cases ts with
  | nil => rfl
  | cons t rest =>
    rw [allSolid, Bool.and_eq_true] at h
    rw [allFilled, isFilled_of_solid t h.1, allFilled_of_solid rest h.2]
    rfl

end

end AbiType

mutual

/-- The place of a value takes one word if it stands behind an offset, and the least words of its
type otherwise. -/
theorem placeBytes_valueReader (data : Array UInt8) (depth : Nat) (t : AbiType) :
    (valueReader data depth t).placeBytes =
      if t.isIndirect then wordBytes else wordBytes * t.leastWords := by
  cases t with
  | fixedArray element size =>
    have he := placeBytes_valueReader data (depth + 1) element
    rw [valueReader, AbiType.isIndirect, AbiType.leastWords]
    dsimp only [partsReader]
    by_cases hi : (size != 0 && element.isIndirect) = true
    · rw [if_pos hi, if_pos hi]
    · rw [if_neg hi, if_neg hi, he]
      by_cases h0 : size = 0
      · rw [h0, Nat.zero_mul, Nat.zero_mul, Nat.mul_zero]
      · rw [if_neg (by simpa [h0] using hi), Nat.mul_left_comm]
  | tuple fields =>
    rw [valueReader, AbiType.isIndirect, AbiType.leastWords]
    dsimp only [partsReader]
    by_cases hi : AbiType.anyIndirect fields = true
    · rw [if_pos hi, if_pos hi]
    · rw [if_neg hi, if_neg hi]
      exact placesBytes_fieldReaders data (depth + 1) fields (Bool.eq_false_iff.mpr hi)
  | _ => rfl

/-- The places of values in place take the least words of their types. -/
theorem placesBytes_fieldReaders (data : Array UInt8) (depth : Nat) (ts : List AbiType)
    (h : AbiType.anyIndirect ts = false) :
    placesBytes (fieldReaders data depth ts) = wordBytes * AbiType.leastWordsSum ts := by
  cases ts with
  | nil => rfl
  | cons t rest =>
    rw [AbiType.anyIndirect, Bool.or_eq_false_iff] at h
    have ht := placeBytes_valueReader data depth t
    rw [h.1, if_neg Bool.false_ne_true] at ht
    rw [fieldReaders, placesBytes, ht, placesBytes_fieldReaders data depth rest h.2,
      AbiType.leastWordsSum, Nat.mul_add]

end

end RollupInput.Abi
