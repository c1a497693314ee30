import Mathlib.Data.List.Induction
import RollupInput.Proofs.Abi.Encoding
import RollupInput.Proofs.Abi.Shape

/-!
# Types of decoded values

Whatever the data, a value that is read is one of its type: the numbers are those of a word, byte
strings have their sizes, arrays of fixed size have their elements and tuples their fields. Only a
byte string of fixed size that is longer than a word would be cut short, and no type that can be
written has one. The induction is on the type, with the reader of its values.
-/

namespace RollupInput.Abi

namespace AbiType

mutual

/-- Whether every byte string of fixed size in a type fits a word. -/
def fitsWords : AbiType → Bool
  | .fixedBytes size => size ≤ wordBytes
  | .array element => fitsWords element
  | .fixedArray element _ => fitsWords element
  | .tuple fields => allFitWords fields
  | _ => true

/-- Whether every byte string of fixed size in some types fits a word. -/
def allFitWords : List AbiType → Bool
  | [] => true
  | t :: rest => fitsWords t && allFitWords rest

end

end AbiType

/-- The number that bytes write is below their range. -/
theorem natOfBytes_lt (bs : List UInt8) : natOfBytes bs < Nat.pow 256 bs.length := by
  induction bs using List.reverseRecOn with
  | nil => exact Nat.one_pos
  | append_singleton bs b ih =>
    have hb : b.toNat < 256 := UInt8.toNat_lt b
    have hp : Nat.pow 256 (bs.length + 1) = Nat.pow 256 bs.length * 256 := rfl
    rw [natOfBytes_concat, List.length_append, List.length_singleton, hp]
    omega

/-- A word writes a natural number of a word's range. -/
theorem natOfBytes_lt_of_word {w : List UInt8} (h : w.length = wordBytes) :
    natOfBytes w < Nat.pow 2 256 := by
  have hp : Nat.pow 256 wordBytes = Nat.pow 2 256 := by decide
  rw [← hp, ← h]
  exact natOfBytes_lt w

/-- A word writes an integer of a word's range. -/
theorem intOfWord_bounds {w : List UInt8} (h : w.length = wordBytes) :
    -((Nat.pow 2 255 : Nat) : Int) ≤ intOfWord w ∧ intOfWord w < (Nat.pow 2 255 : Nat) := by
  have hlt := natOfBytes_lt_of_word h
  have hp : Nat.pow 2 256 = 2 * Nat.pow 2 255 := by decide
  unfold intOfWord
  dsimp only
  split
  · omega
  · omega

variable {data : Array UInt8} {base pos n : Nat}

/-- As many bytes are read as were asked for. -/
theorem length_of_bytesAt {bs : List UInt8} (h : (bytesAt data pos n).outcome = .ok bs) :
    bs.length = n := by
  unfold bytesAt at h
  split at h
  · cases h
  · cases h
    rw [Array.length_toList, Array.size_extract]
    omega

/-- What reads words gives interpretations of words. -/
theorem exists_of_wordReader {interpret : List UInt8 → Value} {v : Value}
    (h : ((wordReader data interpret).read base pos).outcome = .ok v) :
    ∃ w, w.length = wordBytes ∧ interpret w = v := by
  obtain ⟨w, hw, h⟩ := Weighed.outcome_of_bind h
  cases h
  exact ⟨w, length_of_bytesAt hw, rfl⟩

/-- Bytes that are read stand in the data without a gap. -/
theorem isInfix_of_bytesAt {bs : List UInt8} (h : (bytesAt data pos n).outcome = .ok bs) :
    bs <:+: data.toList := by
  unfold bytesAt at h
  split at h
  · cases h
  · cases h
    rw [Array.toList_extract, List.extract_eq_take_drop]
    exact (List.take_prefix _ _).isInfix.trans (List.drop_suffix _ _).isInfix

/-- What reads byte strings gives interpretations of byte strings of the data. -/
theorem exists_of_blobReader {depth : Nat} {interpret : List UInt8 → Value} {v : Value}
    (h : ((blobReader data depth interpret).read base pos).outcome = .ok v) :
    ∃ bs, bs <:+: data.toList ∧ interpret bs = v := by
  obtain ⟨start, -, h⟩ := Weighed.outcome_of_bind h
  obtain ⟨size, -, h⟩ := Weighed.outcome_of_bind h
  obtain ⟨bs, hbs, h⟩ := Weighed.outcome_of_bind h
  obtain ⟨-, -, h⟩ := Weighed.outcome_of_bind h
  cases h
  exact ⟨bs, isInfix_of_bytesAt hbs, rfl⟩

/-- A row has as many values as were asked for. -/
theorem length_of_readRow {reader : ValueReader} {vs : List Value}
    (h : (readRow reader base n pos).outcome = .ok vs) : vs.length = n := by
  induction n generalizing pos vs with
  | zero =>
    cases h
    rfl
  | succ n ih =>
    obtain ⟨v, rest, rfl, -, hrest⟩ := exists_of_readRow h
    rw [List.length_cons, ih hrest]

mutual

/-- A value that is read is one of its type. -/
theorem hasType_of_read (data : Array UInt8) (t : AbiType) (hfits : t.fitsWords = true)
    (depth base pos : Nat) (v : Value)
    (h : ((valueReader data depth t).read base pos).outcome = .ok v) : HasType t v := by
  cases t with
  | bool =>
    obtain ⟨w, -, rfl⟩ := exists_of_wordReader h
    trivial
  | int bits =>
    obtain ⟨w, hw, rfl⟩ := exists_of_wordReader h
    exact intOfWord_bounds hw
  | uint bits =>
    obtain ⟨w, hw, rfl⟩ := exists_of_wordReader h
    exact natOfBytes_lt_of_word hw
  | address =>
    obtain ⟨w, hw, rfl⟩ := exists_of_wordReader h
    rw [HasType, List.length_drop, hw]
    rfl
  | fixedBytes size =>
    obtain ⟨w, hw, rfl⟩ := exists_of_wordReader h
    rw [AbiType.fitsWords, decide_eq_true_eq] at hfits
    rw [HasType, List.length_take, hw]
    exact ⟨Nat.min_eq_left hfits, hfits⟩
  | function =>
    obtain ⟨w, hw, rfl⟩ := exists_of_wordReader h
    rw [HasType, List.length_take, hw]
    rfl
  | bytes =>
    obtain ⟨bs, -, rfl⟩ := exists_of_blobReader h
    trivial
  | string =>
    obtain ⟨bs, -, rfl⟩ := exists_of_blobReader h
    trivial
  | array element =>
    rw [AbiType.fitsWords] at hfits
    obtain ⟨start, vs, rfl, hvs⟩ := exists_of_read_array h
    exact forall_of_arrayAt (hasType_of_read data element hfits (depth + 2)) hvs
  | fixedArray element size =>
    rw [AbiType.fitsWords] at hfits
    obtain ⟨start, vs, rfl, hvs⟩ := exists_of_read_fixedArray h
    exact ⟨length_of_readRow hvs,
      forall_of_readRow (hasType_of_read data element hfits (depth + 1) start) hvs⟩
  | tuple fields =>
    rw [AbiType.fitsWords] at hfits
    obtain ⟨start, vs, rfl, hvs⟩ := exists_of_read_tuple h
    exact haveTypes_of_readEach data fields hfits (depth + 1) start start vs hvs

/-- Values that are read are of their types, one for one. -/
theorem haveTypes_of_readEach (data : Array UInt8) (ts : List AbiType)
    (hfits : AbiType.allFitWords ts = true) (depth base pos : Nat) (vs : List Value)
    (h : (readEach base (fieldReaders data depth ts) pos).outcome = .ok vs) : HaveTypes ts vs := by
  cases ts with
  | nil =>
    cases h
    trivial
  | cons t rest =>
    rw [AbiType.allFitWords, Bool.and_eq_true] at hfits
    rw [fieldReaders] at h
    obtain ⟨v, more, rfl, hv, hmore⟩ := exists_of_readEach h
    exact ⟨hasType_of_read data t hfits.1 depth base pos v hv,
      haveTypes_of_readEach data rest hfits.2 depth base _ more hmore⟩

end

end RollupInput.Abi
