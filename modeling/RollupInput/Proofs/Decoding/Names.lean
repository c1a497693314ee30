import RollupInput.Proofs.Abi.Success
import RollupInput.Proofs.Decoding.Outcome
import RollupInput.Proofs.Mapped

/-!
# Names of pieces

Where the pieces of a decode have their names from. Those of parameters are fixed by the
declarations. The piece of a byte range has the name that stands behind the type of the range, or
else the one under which the range is listed, unless the range is missing: then its type is not
looked at.
-/

namespace RollupInput

namespace ByteRange

/-- The name that the type of a range brings, if there is one. -/
def typeName? (r : ByteRange) : Option String :=
  (r.type.bind Text.nonBlank?).bind fun kind =>
    match Declaration.parse [kind] with
    | .ok [param] => param.nonBlankName?
    | _ => none

/-- Whether a range lies outside a payload, and may. -/
def isMissingFrom (r : ByteRange) (payload : List UInt8) : Bool :=
  r.mayBeMissing && (fault? (Payload.extract payload r.start r.stop)).isSome

/-- The name of the piece that the range at an index cuts out of a payload. -/
def pieceName (r : ByteRange) (payload : List UInt8) (index : Nat) : String :=
  if r.isMissingFrom payload then r.listedName index else r.typeName?.getD (r.listedName index)

end ByteRange

namespace Decoding

open Abi

variable {declarations : List String} {params : List Param} {data payload : List UInt8}
  {pieces : List Piece}

/-- The name under which the value of a parameter at an index is listed. -/
def parameterName (index : Nat) (p : Param) : String := p.nonBlankName?.getD s!"params{index}"

/-- The piece of a parameter with its value. -/
def pieceOf (index : Nat) (p : Param × Value) : Piece :=
  ⟨parameterName index p.1, p.2.asBytes?.getD [], some p.2⟩

/-- The pieces of declarations that are read, with the values that data are decoded to. -/
theorem paramPieces_of_values [Memory] {values : List Value}
    (hparse : Declaration.parse declarations = .ok params)
    (hvalues : decodeValues params data = .ok values) :
    paramPieces declarations data = .ok ((params.zip values).mapIdx pieceOf) := by
  unfold paramPieces
  rw [hparse]
  dsimp only
  rw [hvalues]
  rfl

/-- Pieces of declarations are those of parameters and values. -/
theorem exists_of_paramPieces [Memory] (h : paramPieces declarations data = .ok pieces) :
    ∃ params values, Declaration.parse declarations = .ok params ∧
      decodeValues params data = .ok values ∧ pieces = (params.zip values).mapIdx pieceOf := by
  unfold paramPieces at h
  cases hparse : Declaration.parse declarations with
  | error e =>
    rw [hparse] at h
    cases h
  | ok params =>
    rw [hparse] at h
    dsimp only at h
    cases hvalues : decodeValues params data with
    | error e =>
      rw [hvalues] at h
      cases h
    | ok values =>
      rw [hvalues] at h
      exact ⟨params, values, rfl, hvalues, (Except.ok.inj h).symm⟩

/-- The pieces of parameters stand for their values under the names of the parameters. -/
theorem entries_of_pieceOf (params : List Param) (values : List Value) :
    ((params.zip values).mapIdx pieceOf).map (fun p => (p.name, p.value)) =
      (params.mapIdx parameterName).zip values := by
  refine List.ext_getElem (by simp) ?_
  intro index _ _
  simp [pieceOf, Piece.value]

/-- The names of the pieces of parameters: none if their types are made of nothing. -/
def paramNames (params : List Param) : List String :=
  if AbiType.allEmpty (params.map Param.type) then [] else params.mapIdx parameterName

/-- The pieces of declarations have the names of the parameters, whatever the data. -/
theorem map_name_of_paramPieces [Memory] (hparse : Declaration.parse declarations = .ok params)
    (h : paramPieces declarations data = .ok pieces) :
    pieces.map Piece.name = paramNames params := by
  obtain ⟨params', values, hparse', hvalues, rfl⟩ := exists_of_paramPieces h
  rw [hparse] at hparse'
  cases hparse'
  have hentries := congrArg (List.map Prod.fst) (entries_of_pieceOf params values)
  have hlength := length_of_decodeValues hvalues
  rw [List.map_map] at hentries
  unfold paramNames
  refine hentries.trans ?_
  split at hlength
  · rename_i hempty
    rw [List.length_eq_zero_iff.mp hlength, List.zip_nil_right, if_pos hempty]
    rfl
  · rename_i hempty
    have hle : (params.mapIdx parameterName).length ≤ values.length := by
      rw [List.length_mapIdx]
      omega
    rw [List.map_fst_zip hle, if_neg hempty]

/-- A range that is decoded as a type gives a piece with the name that the type brings. -/
theorem name_of_typedPiece [Memory]
    {r : ByteRange} {name kind : String} {part : List UInt8} {piece : Piece}
    (hkind : r.type.bind Text.nonBlank? = some kind)
    (h : typedPiece name kind part = .ok piece) : piece.name = r.typeName?.getD name := by
  unfold ByteRange.typeName?
  rw [hkind, Option.bind_some]
  unfold typedPiece at h
  split at h
  · cases h
  · rename_i param hparse
    obtain ⟨values, -, rfl⟩ := ok_of_map h
    rw [hparse]
  · cases h

/-- The piece of a range has the name that the range gives it on the payload. -/
theorem name_of_rangePiece [Memory] {r : ByteRange} {index : Nat} {piece : Piece}
    (h : rangePiece payload index r = .ok piece) : piece.name = r.pieceName payload index := by
  unfold rangePiece at h
  unfold ByteRange.pieceName ByteRange.isMissingFrom
  cases hextract : Payload.extract payload r.start r.stop with
  | error e =>
    rw [hextract] at h
    dsimp only at h
    cases hmissing : r.mayBeMissing with
    | false =>
      rw [hmissing, if_neg Bool.false_ne_true] at h
      cases h
    | true =>
      rw [hmissing, if_pos rfl] at h
      cases h
      rfl
  | ok part =>
    have hthere : ¬(r.mayBeMissing && (fault? (Except.ok (ε := DecodeFault) part)).isSome) = true := by
      rw [fault?, Option.isSome_none, Bool.and_false]
      exact Bool.false_ne_true
    rw [hextract] at h
    rw [if_neg hthere]
    dsimp only at h
    cases hkind : r.type.bind Text.nonBlank? with
    | none =>
      rw [hkind] at h
      cases h
      unfold ByteRange.typeName?
      rw [hkind]
      rfl
    | some kind =>
      rw [hkind] at h
      exact name_of_typedPiece hkind h

/-- The pieces of ranges have the names that the ranges give them on the payload. -/
theorem map_name_of_rangePieces [Memory] {ranges : List ByteRange} {index : Nat}
    (h : rangePieces payload index ranges = (pieces, none)) :
    pieces.map Piece.name = ranges.mapIdx fun i r => r.pieceName payload (i + index) := by
  induction ranges generalizing index pieces with
  | nil =>
    cases h
    rfl
  | cons r rest ih =>
    rw [rangePieces] at h
    cases hpiece : rangePiece payload index r with
    | error e =>
      rw [hpiece] at h
      cases h
    | ok piece =>
      rw [hpiece] at h
      obtain ⟨hpieces, hnone⟩ := Prod.mk.inj h
      have hmore := ih (Prod.ext rfl hnone)
      rw [← hpieces, List.map_cons, hmore, name_of_rangePiece hpiece, List.mapIdx_cons]
      simp only [Nat.zero_add, Nat.add_right_comm, Nat.add_assoc]

end Decoding

end RollupInput
