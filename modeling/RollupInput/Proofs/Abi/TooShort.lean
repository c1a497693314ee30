import RollupInput.Proofs.Abi.HeadSize
import RollupInput.Proofs.Abi.Success
import RollupInput.Proofs.Declaration.Acceptance

/-!
# Data too short for its head

When data is refused for its size: if it is shorter than the exact head of the parameters, and else
only if an array of no elements hides a count. A count that does not fit a 64 bit word is given up
where it is met. What is still to be added to it or multiplied with it would only make it greater,
unless the size of an array is zero; then the head may be small, and yet data of any size is refused.
-/

namespace RollupInput.Abi

/-- Whether a decode refuses data for its size. -/
def IsTooShort (decoded : Except DecodeFault (List Value)) : Prop :=
  ∃ listing shown size, decoded = .error (.tooShort listing shown size)

variable {params : List Param} {data : List UInt8}

/-- Data is refused for its size exactly if it has less than the checked size of the head, or there
is no such size. -/
theorem isTooShort_iff [Memory] (hne : params ≠ []) :
    IsTooShort (decodeValues params data) ↔
      ∀ size, Param.headBytes params = some size → data.length < size := by
  constructor
  · rintro ⟨listing, shown, bytes, h⟩ size hsize
    by_contra hlong
    rw [decodeValues_of_headBytes hne hsize (Nat.not_lt.mp hlong)] at h
    cases hdecode : decode (params.map Param.type) data with
    | error misfit =>
      rw [hdecode] at h
      cases h
    | ok values =>
      rw [hdecode] at h
      cases h
  · intro h
    exact ⟨_, _, _, decodeValues_of_tooShort hne h⟩

/-- All data is refused for its size if an array of no elements hides a count. -/
theorem isTooShort_of_hidesOverflow [Memory] (hne : params ≠ [])
    (h : AbiType.anyHidesOverflow (params.map Param.type) = true) :
    IsTooShort (decodeValues params data) := by
  refine (isTooShort_iff hne).mpr fun size hsize => ?_
  obtain ⟨hhides, -⟩ := (Param.headBytes_eq_some_iff params).mp hsize
  rw [h] at hhides
  cases hhides

/-- Where no count is hidden, data is refused for its size exactly if it is shorter than the exact
head of the parameters. -/
theorem isTooShort_iff_of_exact [Memory] (hne : params ≠ []) (hdata : data.length < wordLimit)
    (h : AbiType.anyHidesOverflow (params.map Param.type) = false) :
    IsTooShort (decodeValues params data) ↔
      data.length < wordBytes * AbiType.headWordsSum (params.map Param.type) := by
  rw [isTooShort_iff hne]
  constructor
  · intro hshort
    by_contra hlong
    exact hlong (hshort _ (Param.headBytes_of_le h (Nat.not_lt.mp hlong) hdata))
  · rintro hshort size hsize
    obtain ⟨-, -, rfl⟩ := (Param.headBytes_eq_some_iff params).mp hsize
    exact hshort

/-- Data is refused for its size exactly if it is shorter than the exact head of the parameters, or if
an array of no elements in their types hides a count that does not fit a 64 bit word. -/
theorem isTooShort_iff_headWords [Memory] (hne : params ≠ []) (hdata : data.length < wordLimit) :
    IsTooShort (decodeValues params data) ↔
      data.length < wordBytes * AbiType.headWordsSum (params.map Param.type) ∨
        AbiType.anyHidesOverflow (params.map Param.type) = true := by
  cases hhides : AbiType.anyHidesOverflow (params.map Param.type) with
  | true => exact iff_of_true (isTooShort_of_hidesOverflow hne hhides) (.inr rfl)
  | false =>
    rw [isTooShort_iff_of_exact hne hdata hhides, or_iff_left Bool.false_ne_true]

/-- An array of no elements, of which each would be a pair of arrays of 2^63 numbers. -/
def hiddenParams : List Param :=
  [⟨some "x", "uint256[9223372036854775808][2][0]",
    .fixedArray (.fixedArray (.fixedArray (.uint 256) (Nat.pow 2 63)) 2) 0, []⟩]

attribute [local instance] Memory.usual

/-- The array of no elements takes no words, but all data is refused for its size. -/
theorem hiddenParams_isTooShort :
    hiddenParams ≠ [] ∧ ([] : List UInt8).length < wordLimit ∧
    wordBytes * AbiType.headWordsSum (hiddenParams.map Param.type) = 0 ∧
    IsTooShort (decodeValues hiddenParams []) := by
  have hne : hiddenParams ≠ [] := List.cons_ne_nil _ _
  have hdata : ([] : List UInt8).length < wordLimit := by decide
  have hhidden : AbiType.anyHidesOverflow (hiddenParams.map Param.type) = true := by decide
  exact ⟨hne, hdata, by decide, (isTooShort_iff_headWords hne hdata).mpr (.inr hhidden)⟩

/-- The array of no elements as it is written. -/
def writtenHidden : List Declaration.Written :=
  [.elementary "uint256".toList
    ⟨[], [⟨[], some (Nat.pow 2 63), []⟩, ⟨[], some 2, []⟩, ⟨[], some 0, []⟩], [],
      some (Declaration.spaced "x"), []⟩]

/-- The exact head alone does not tell which data is refused for its size. -/
theorem not_forall_isTooShort_iff :
    ¬∀ declarations params (data : List UInt8), Declaration.parse declarations = .ok params →
      params ≠ [] → data.length < wordLimit →
      (IsTooShort (decodeValues params data) ↔
        data.length < wordBytes * AbiType.headWordsSum (params.map Param.type)) := by
  intro hall
  have hparse : Declaration.parse ["uint256[9223372036854775808][2][0] x"] = .ok hiddenParams :=
    eq_ok_of_toOption (@Declaration.toOption_parse_of_known [writtenHidden] _
      (by simp [writtenHidden]) (by decide +kernel) (by rfl))
  have hne : hiddenParams ≠ [] := List.cons_ne_nil _ _
  have hshort : IsTooShort (decodeValues hiddenParams []) :=
    ⟨_, _, _, decodeValues_of_tooShort hne fun size hsize => by cases hsize⟩
  have hlength := (hall _ _ [] hparse hne (by decide)).mp hshort
  exact absurd hlength (by decide)

end RollupInput.Abi
