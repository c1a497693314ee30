import Mathlib.Data.Option.Basic
import RollupInput.Abi.Param

/-!
# The size of a head

The head of an encoding is measured with counts of 64 bits, each of which is checked. The exact
measure, in natural numbers of any size, is what the checked one comes to unless a count does not
fit. Counts only grow on the way from the parts of a type to the type, so a count that does not fit
tells of an exact measure that does not fit either, and no data is that long. The one exception is an
array of no elements: it takes no words, however many its element would take.
-/

namespace RollupInput.Abi

namespace AbiType

mutual

/-- The exact number of words that a type occupies in the head of an encoding. -/
def headWords : AbiType → Nat
  | .fixedArray element size => if isDynamic element then 1 else size * headWords element
  | .tuple fields => if anyDynamic fields then 1 else headWordsSum fields
  | _ => 1

/-- The sum of the exact numbers of head words of the types. -/
def headWordsSum : List AbiType → Nat
  | [] => 0
  | t :: rest => headWords t + headWordsSum rest

end

mutual

/-- Whether a static type has an array of no elements in it that hides a count: the words of its
element do not fit a 64 bit word. -/
def hidesOverflow : AbiType → Bool
  | .fixedArray element size =>
    !isDynamic element &&
      (hidesOverflow element || (size == 0 && decide (wordLimit ≤ headWords element)))
  | .tuple fields => !anyDynamic fields && anyHidesOverflow fields
  | _ => false

/-- Whether one of the types has an array of no elements in it that hides a count. -/
def anyHidesOverflow : List AbiType → Bool
  | [] => false
  | t :: rest => hidesOverflow t || anyHidesOverflow rest

end

mutual

/-- Whether every array of fixed size in a type has an element. -/
def isFilled : AbiType → Bool
  | .array element => isFilled element
  | .fixedArray element size => size != 0 && isFilled element
  | .tuple fields => allFilled fields
  | _ => true

/-- Whether every array of fixed size in some types has an element. -/
def allFilled : List AbiType → Bool
  | [] => true
  | t :: rest => isFilled t && allFilled rest

end

mutual

/-- A type whose arrays of fixed size have elements hides no count. -/
theorem hidesOverflow_of_filled (t : AbiType) (h : t.isFilled = true) : t.hidesOverflow = false := by
  cases t with
  | fixedArray element size =>
    rw [isFilled, Bool.and_eq_true, bne_iff_ne] at h
    rw [hidesOverflow, hidesOverflow_of_filled element h.2, beq_eq_false_iff_ne.mpr h.1,
      Bool.false_and, Bool.false_or, Bool.and_false]
  | tuple fields =>
    rw [isFilled] at h
    rw [hidesOverflow, anyHidesOverflow_of_filled fields h, Bool.and_false]
  | _ => rfl

/-- Types whose arrays of fixed size have elements hide no count. -/
theorem anyHidesOverflow_of_filled (ts : List AbiType) (h : allFilled ts = true) :
    anyHidesOverflow ts = false := by
  cases ts with
  | nil => rfl
  | cons t rest =>
    rw [allFilled, Bool.and_eq_true] at h
    rw [anyHidesOverflow, hidesOverflow_of_filled t h.1, anyHidesOverflow_of_filled rest h.2]
    rfl

end

mutual

/-- A static type has its least words in the head. -/
theorem headWords_of_static (t : AbiType) (h : t.isDynamic = false) : t.headWords = t.leastWords := by
  cases t with
  | fixedArray element size =>
    rw [isDynamic] at h
    rw [headWords, h, if_neg Bool.false_ne_true, headWords_of_static element h, leastWords]
  | tuple fields =>
    rw [isDynamic] at h
    rw [headWords, h, if_neg Bool.false_ne_true, headWordsSum_of_static fields h, leastWords]
  | _ => rfl

/-- Static types have their least words in the head. -/
theorem headWordsSum_of_static (ts : List AbiType) (h : anyDynamic ts = false) :
    headWordsSum ts = leastWordsSum ts := by
  cases ts with
  | nil => rfl
  | cons t rest =>
    rw [anyDynamic, Bool.or_eq_false_iff] at h
    rw [headWordsSum, headWords_of_static t h.1, headWordsSum_of_static rest h.2, leastWordsSum]

end

/-- What is counted fits a 64 bit word, and is the count. -/
theorem counted_eq_some_iff {n m : Nat} : counted n = some m ↔ n < wordLimit ∧ m = n := by
  unfold counted
  split
  · rename_i hfits
    rw [Option.some.injEq, eq_comm, and_iff_right hfits]
  · rename_i hfits
    simp [hfits]

mutual

/-- The checked number of head words is the exact one, and there is one exactly if that fits a 64 bit
word and no array of no elements hides a count. -/
theorem wordsInHead_eq_some_iff (t : AbiType) {n : Nat} :
    t.wordsInHead = some n ↔
      t.hidesOverflow = false ∧ t.headWords < wordLimit ∧ n = t.headWords := by
  have hword : some 1 = some n ↔ false = false ∧ 1 < wordLimit ∧ n = 1 := by
    have hone : 1 < wordLimit := by decide
    simp [hone, eq_comm]
  cases t with
  | fixedArray element size =>
    rw [wordsInHead, headWords, hidesOverflow]
    cases hd : element.isDynamic with
    | true => exact hword
    | false =>
      have helement := @wordsInHead_eq_some_iff element
      rw [if_neg Bool.false_ne_true, if_neg Bool.false_ne_true, Option.bind_eq_some_iff, Bool.not_false,
        Bool.true_and, Bool.or_eq_false_iff, Nat.mul_comm size]
      constructor
      · rintro ⟨m, hm, hn⟩
        obtain ⟨hhides, hfits, rfl⟩ := helement.mp hm
        obtain ⟨hproduct, rfl⟩ := counted_eq_some_iff.mp hn
        refine ⟨⟨hhides, ?_⟩, hproduct, rfl⟩
        rw [Bool.and_eq_false_iff, decide_eq_false_iff_not]
        exact .inr (Nat.not_le.mpr hfits)
      · rintro ⟨⟨hhides, hzero⟩, hproduct, rfl⟩
        -- Only an array of no elements has fewer words than its element.
        have hfits : element.headWords < wordLimit := by
          rw [Bool.and_eq_false_iff, beq_eq_false_iff_ne, decide_eq_false_iff_not, Nat.not_le] at hzero
          rcases hzero with hsome | hfits
          · exact Nat.lt_of_le_of_lt
              (Nat.le_mul_of_pos_right _ (Nat.pos_of_ne_zero hsome)) hproduct
          · exact hfits
        exact ⟨element.headWords, helement.mpr ⟨hhides, hfits, rfl⟩,
          counted_eq_some_iff.mpr ⟨hproduct, rfl⟩⟩
  | tuple fields =>
    rw [wordsInHead, headWords, hidesOverflow]
    cases hd : anyDynamic fields with
    | true => exact hword
    | false =>
      have hfields := @wordsInHeadFrom_eq_some_iff 0 fields n (by decide)
      rwa [Nat.zero_add] at hfields
  | _ => exact hword

/-- The checked number of head words of types is the exact one, added to a count that fits. -/
theorem wordsInHeadFrom_eq_some_iff (total : Nat) (ts : List AbiType) {n : Nat}
    (hfits : total < wordLimit) :
    wordsInHeadFrom total ts = some n ↔
      anyHidesOverflow ts = false ∧ total + headWordsSum ts < wordLimit ∧
        n = total + headWordsSum ts := by
  cases ts with
  | nil =>
    rw [wordsInHeadFrom, headWordsSum, anyHidesOverflow, Nat.add_zero]
    simp [hfits, eq_comm]
  | cons t rest =>
    have hfirst := @wordsInHead_eq_some_iff t
    have hrest (sum : Nat) := @wordsInHeadFrom_eq_some_iff sum rest n
    rw [wordsInHeadFrom, headWordsSum, anyHidesOverflow, Bool.or_eq_false_iff, Option.bind_eq_some_iff,
      ← Nat.add_assoc]
    constructor
    · rintro ⟨m, hm, h⟩
      obtain ⟨sum, hsum, h⟩ := Option.bind_eq_some_iff.mp h
      obtain ⟨hhides, -, rfl⟩ := hfirst.mp hm
      obtain ⟨hsumFits, rfl⟩ := counted_eq_some_iff.mp hsum
      obtain ⟨hmore, hall, rfl⟩ := (hrest _ hsumFits).mp h
      exact ⟨⟨hhides, hmore⟩, hall, rfl⟩
    · rintro ⟨⟨hhides, hmore⟩, hall, rfl⟩
      have hsumFits : total + t.headWords < wordLimit := by omega
      refine ⟨t.headWords, hfirst.mpr ⟨hhides, by omega, rfl⟩, Option.bind_eq_some_iff.mpr ?_⟩
      exact ⟨_, counted_eq_some_iff.mpr ⟨hsumFits, rfl⟩, (hrest _ hsumFits).mpr ⟨hmore, hall, rfl⟩⟩

end

/-- A dynamic type has one word in the head. -/
theorem headWords_of_dynamic {t : AbiType} (h : t.isDynamic = true) : t.headWords = 1 := by
  cases t with
  | fixedArray element size =>
    rw [isDynamic] at h
    rw [headWords, if_pos h]
  | tuple fields =>
    rw [isDynamic] at h
    rw [headWords, if_pos h]
  | _ => rfl

end AbiType

namespace Param

/-- The checked size of the head of parameters is the exact one, added to a size that fits. -/
theorem headBytesFrom_eq_some_iff (total : Nat) (params : List Param) {n : Nat}
    (hfits : total < wordLimit) :
    headBytesFrom total params = some n ↔
      AbiType.anyHidesOverflow (params.map Param.type) = false ∧
        total + wordBytes * AbiType.headWordsSum (params.map Param.type) < wordLimit ∧
        n = total + wordBytes * AbiType.headWordsSum (params.map Param.type) := by
  induction params generalizing total with
  | nil =>
    have hnil : total + wordBytes * AbiType.headWordsSum [] = total := rfl
    rw [List.map_nil, headBytesFrom, AbiType.anyHidesOverflow, hnil]
    simp [hfits, eq_comm]
  | cons p rest ih =>
    rw [headBytesFrom, List.map_cons, AbiType.headWordsSum, AbiType.anyHidesOverflow,
      Bool.or_eq_false_iff, Nat.mul_add, ← Nat.add_assoc, Option.bind_eq_some_iff]
    constructor
    · rintro ⟨words, hwords, h⟩
      obtain ⟨bytes, hbytes, h⟩ := Option.bind_eq_some_iff.mp h
      obtain ⟨sum, hsum, h⟩ := Option.bind_eq_some_iff.mp h
      obtain ⟨hhides, -, rfl⟩ := p.type.wordsInHead_eq_some_iff.mp hwords
      obtain ⟨-, rfl⟩ := AbiType.counted_eq_some_iff.mp hbytes
      obtain ⟨hsumFits, rfl⟩ := AbiType.counted_eq_some_iff.mp hsum
      rw [Nat.mul_comm] at hsumFits h
      obtain ⟨hmore, hall, rfl⟩ := (ih _ hsumFits).mp h
      exact ⟨⟨hhides, hmore⟩, hall, rfl⟩
    · rintro ⟨⟨hhides, hmore⟩, hall, rfl⟩
      have hsumFits : total + wordBytes * p.type.headWords < wordLimit := by omega
      have hbytes : p.type.headWords * 32 = wordBytes * p.type.headWords := Nat.mul_comm _ _
      have hle : p.type.headWords ≤ wordBytes * p.type.headWords :=
        Nat.le_mul_of_pos_left _ (by decide)
      refine ⟨p.type.headWords, p.type.wordsInHead_eq_some_iff.mpr ⟨hhides, by omega, rfl⟩, ?_⟩
      rw [hbytes]
      refine Option.bind_eq_some_iff.mpr ⟨_, AbiType.counted_eq_some_iff.mpr ⟨by omega, rfl⟩, ?_⟩
      exact Option.bind_eq_some_iff.mpr
        ⟨_, AbiType.counted_eq_some_iff.mpr ⟨hsumFits, rfl⟩, (ih _ hsumFits).mpr ⟨hmore, hall, rfl⟩⟩

/-- The checked size of the head of parameters is the exact one, and there is one exactly if that fits
a 64 bit word and no array of no elements hides a count. -/
theorem headBytes_eq_some_iff (params : List Param) {n : Nat} :
    headBytes params = some n ↔
      AbiType.anyHidesOverflow (params.map Param.type) = false ∧
        wordBytes * AbiType.headWordsSum (params.map Param.type) < wordLimit ∧
        n = wordBytes * AbiType.headWordsSum (params.map Param.type) := by
  have hfrom := @headBytesFrom_eq_some_iff 0 params n (by decide)
  rwa [Nat.zero_add] at hfrom

/-- Parameters that hide no count have the exact size of their head checked, if that is no greater
than a number that fits a 64 bit word. -/
theorem headBytes_of_le {params : List Param} {size : Nat}
    (hhides : AbiType.anyHidesOverflow (params.map Param.type) = false)
    (hle : wordBytes * AbiType.headWordsSum (params.map Param.type) ≤ size)
    (hsize : size < wordLimit) :
    headBytes params = some (wordBytes * AbiType.headWordsSum (params.map Param.type)) :=
  (headBytes_eq_some_iff params).mpr ⟨hhides, Nat.lt_of_le_of_lt hle hsize, rfl⟩

end Param

end RollupInput.Abi
