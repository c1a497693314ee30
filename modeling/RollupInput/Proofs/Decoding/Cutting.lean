import RollupInput.Proofs.Decoding.Names

/-!
# Cutting by ranges, one after the other

Ranges are cut out one after the other, up to the first that fails. What a range gives is decided by
the payload and the range itself; where it stands in the list has a part in the name of its piece
only, and only if there is no other name. So what comes of a list of ranges is told by what comes of
each of them, and two decodes whose payloads are cut alike end alike.
-/

namespace RollupInput

namespace ByteRange

/-- Whether the piece that a range cuts out of a payload has its name from the place of the range:
no name is given, and none stands behind the type, or the type is not looked at. -/
def isNamedByPlace (r : ByteRange) (payload : List UInt8) : Bool :=
  (r.name.bind Text.nonBlank?).isNone && (r.isMissingFrom payload || r.typeName?.isNone)

/-- The piece of a range, if the range stood at another index. -/
def movedTo (r : ByteRange) (payload : List UInt8) (index : Nat) (piece : Piece) : Piece :=
  if r.isNamedByPlace payload then { piece with name := s!"param{index}" } else piece

/-- A range under a name of its own is listed under it at every index. -/
theorem listedName_of_name {r : ByteRange} {name : String}
    (h : r.name.bind Text.nonBlank? = some name) (index : Nat) : r.listedName index = name := by
  unfold listedName
  rw [h, Option.getD_some]

/-- A range without a name is listed under one made from its index. -/
theorem listedName_of_none {r : ByteRange} (h : r.name.bind Text.nonBlank? = none) (index : Nat) :
    r.listedName index = s!"param{index}" := by
  unfold listedName
  rw [h, Option.getD_none]

/-- Moving a piece gives it the name that the range gives at the other index. -/
theorem movedTo_eq {r : ByteRange} {payload : List UInt8} {piece : Piece} {start : Nat}
    (h : piece.name = r.pieceName payload start) (index : Nat) :
    r.movedTo payload index piece = { piece with name := r.pieceName payload index } := by
  obtain ⟨name, part, decoded⟩ := piece
  dsimp only at h
  subst h
  unfold movedTo isNamedByPlace pieceName
  cases hname : r.name.bind Text.nonBlank? with
  | some own =>
    rw [listedName_of_name hname, listedName_of_name hname]
    rfl
  | none =>
    rw [listedName_of_none hname, listedName_of_none hname]
    cases r.isMissingFrom payload with
    | true => rfl
    | false =>
      cases r.typeName? with
      | none => rfl
      | some own => rfl

end ByteRange

namespace Decoding

open Abi

variable {payload : List UInt8} {pieces : List Piece} {ranges : List ByteRange} {index : Nat}

/-- Whether two decodes have come to the same. -/
structure EndsLike (d other : Decoding) : Prop where
  /-- They have come as far. -/
  stage_eq : d.stage = other.stage
  /-- They have found the same pieces. -/
  pieces_eq : d.pieces = other.pieces
  /-- They have the same values by name. -/
  result_eq : d.result = other.result
  /-- They have the same error, or none. -/
  error_eq : d.error = other.error

/-- Decodes by the same declarations and the same target end alike if the payloads are cut alike. -/
theorem endsLike_run [Memory]
    {spec spec' : Specification} {mode mode' : ParamsMode} {other : List UInt8}
    (hmode : spec.mode = .params mode) (hmode' : spec'.mode = .params mode')
    (hdeclarations : mode.declarations = mode'.declarations) (htarget : mode.target = mode'.target)
    (hcut : cut mode payload = cut mode' other) :
    EndsLike (run spec payload) (run spec' other) := by
  have hunwrap : ∀ pieces, unwrap mode pieces = unwrap mode' pieces := by
    intro pieces
    unfold unwrap
    rw [hdeclarations, htarget]
  rw [run_of_params hmode, run_of_params hmode', hcut, htarget]
  obtain ⟨pieces, e⟩ := cut mode' other
  cases e with
  | some e => exact ⟨rfl, rfl, rfl, rfl⟩
  | none =>
    dsimp only
    rw [hunwrap]
    cases unwrap mode' pieces with
    | error e => exact ⟨rfl, rfl, rfl, rfl⟩
    | ok more => exact ⟨rfl, rfl, rfl, rfl⟩

/-- The name under which a typed range is listed has a part in the name of its piece only. -/
theorem typedPiece_eq_map [Memory] {r : ByteRange} {kind : String}
    (hkind : r.type.bind Text.nonBlank? = some kind) (name other : String) (part : List UInt8) :
    typedPiece name kind part =
      (typedPiece other kind part).map fun p => { p with name := r.typeName?.getD name } := by
  unfold typedPiece ByteRange.typeName?
  rw [hkind, Option.bind_some]
  cases Declaration.parse [kind] with
  | error e => rfl
  | ok params =>
    match params with
    | [] => rfl
    | [param] =>
      dsimp only
      rw [map_map]
    | _ :: _ :: _ => rfl

/-- The index at which a range stands has a part in the name of its piece only. -/
theorem rangePiece_eq_map [Memory] (payload : List UInt8) (start index : Nat) (r : ByteRange) :
    rangePiece payload index r = (rangePiece payload start r).map fun p =>
      { p with name := r.pieceName payload index } := by
  unfold rangePiece ByteRange.pieceName ByteRange.isMissingFrom
  cases Payload.extract payload r.start r.stop with
  | error e =>
    cases r.mayBeMissing with
    | false => rfl
    | true => rfl
  | ok part =>
    have hthere : ¬(r.mayBeMissing && (fault? (Except.ok (ε := DecodeFault) part)).isSome) = true := by
      rw [fault?, Option.isSome_none, Bool.and_false]
      exact Bool.false_ne_true
    rw [if_neg hthere]
    dsimp only
    cases hkind : r.type.bind Text.nonBlank? with
    | none =>
      unfold ByteRange.typeName?
      rw [hkind]
      rfl
    | some kind => exact typedPiece_eq_map hkind _ _ part

/-- A range gives the same piece at every index, up to a name made from the index, or fails by the
same fault. -/
theorem rangePiece_movedTo [Memory] (payload : List UInt8) (start index : Nat) (r : ByteRange) :
    rangePiece payload index r = (rangePiece payload start r).map (r.movedTo payload index) := by
  rw [rangePiece_eq_map payload start index r]
  cases hpiece : rangePiece payload start r with
  | error e => rfl
  | ok piece =>
    have hmoved := ByteRange.movedTo_eq (name_of_rangePiece hpiece) index
    exact congrArg Except.ok hmoved.symm

/-- Cutting by ranges goes on behind those that are cut out, and ends where one of them fails. -/
theorem rangePieces_append [Memory]
    (payload : List UInt8) (index : Nat) (front back : List ByteRange) :
    rangePieces payload index (front ++ back) =
      match rangePieces payload index front with
      | (pieces, some e) => (pieces, some e)
      | (pieces, none) =>
        (pieces ++ (rangePieces payload (index + front.length) back).1,
          (rangePieces payload (index + front.length) back).2) := by
  induction front generalizing index with
  | nil => rfl
  | cons r rest ih =>
    rw [List.cons_append, rangePieces, rangePieces]
    cases rangePiece payload index r with
    | error e => rfl
    | ok piece =>
      dsimp only
      rw [ih, List.length_cons, Nat.add_right_comm, ← Nat.add_assoc]
      obtain ⟨pieces, e⟩ := rangePieces payload (index + 1) rest
      cases e with
      | some e => rfl
      | none => rfl

/-- Each range that is cut out has its piece, at its place. -/
theorem exists_of_rangePieces [Memory]
    (h : rangePieces payload index ranges = (pieces, none)) {place : Nat}
    (hplace : place < ranges.length) :
    ∃ piece, rangePiece payload (index + place) ranges[place] = .ok piece ∧
      pieces[place]? = some piece := by
  induction ranges generalizing index pieces place with
  | nil => cases hplace
  | cons r rest ih =>
    rw [rangePieces] at h
    cases hpiece : rangePiece payload index r with
    | error e =>
      rw [hpiece] at h
      cases h
    | ok piece =>
      rw [hpiece] at h
      obtain ⟨rfl, hnone⟩ := Prod.mk.inj h
      cases place with
      | zero => exact ⟨piece, hpiece, rfl⟩
      | succ place =>
        obtain ⟨found, hfound, hget⟩ := ih (Prod.ext rfl hnone) (Nat.lt_of_succ_lt_succ hplace)
        rw [Nat.add_assoc, Nat.add_comm 1 place] at hfound
        exact ⟨found, hfound, hget⟩

/-- There are as many pieces as ranges, if all are cut out. -/
theorem length_of_rangePieces [Memory] (h : rangePieces payload index ranges = (pieces, none)) :
    pieces.length = ranges.length := by
  have hnames := congrArg List.length (map_name_of_rangePieces h)
  rwa [List.length_map, List.length_mapIdx] at hnames

/-- A fault comes from the first range that fails, and the pieces are those of the ranges before. -/
theorem exists_of_rangePieces_error [Memory] {e : DecodeFault}
    (h : rangePieces payload index ranges = (pieces, some e)) :
    ∃ hfirst : pieces.length < ranges.length,
      rangePieces payload index (ranges.take pieces.length) = (pieces, none) ∧
        rangePiece payload (index + pieces.length) ranges[pieces.length] = .error e := by
  induction ranges generalizing index pieces with
  | nil => cases h
  | cons r rest ih =>
    rw [rangePieces] at h
    cases hpiece : rangePiece payload index r with
    | error e' =>
      rw [hpiece] at h
      cases h
      exact ⟨Nat.zero_lt_succ _, rfl, hpiece⟩
    | ok piece =>
      rw [hpiece] at h
      obtain ⟨rfl, hsome⟩ := Prod.mk.inj h
      obtain ⟨hfirst, hfront, hfault⟩ := ih (Prod.ext rfl hsome)
      refine ⟨Nat.succ_lt_succ hfirst, ?_, ?_⟩
      · rw [List.length_cons, List.take_succ_cons, rangePieces, hpiece]
        dsimp only
        rw [hfront]
      · rw [Nat.add_assoc, Nat.add_comm 1] at hfault
        exact hfault

/-- The pieces of the first stage are those that the payload is cut into. -/
theorem pieces_sliced [Memory] (spec : Specification) (mode : ParamsMode) (payload : List UInt8) :
    (sliced mode (start spec payload)).pieces = (cut mode payload).1 := by
  rw [sliced_start]
  obtain ⟨pieces, e⟩ := cut mode payload
  cases e with
  | some e => rfl
  | none => rfl

/-- The error of the first stage is the fault that ended the cutting. -/
theorem error_sliced [Memory] (spec : Specification) (mode : ParamsMode) (payload : List UInt8) :
    (sliced mode (start spec payload)).error = (cut mode payload).2 := by
  rw [sliced_start]
  obtain ⟨pieces, e⟩ := cut mode payload
  cases e with
  | some e => rfl
  | none => rfl

/-- A fault of the first stage ends the decode with the pieces that were cut out before. -/
theorem run_of_cut_error [Memory] {spec : Specification} {mode : ParamsMode}
    (hmode : spec.mode = .params mode) {e : DecodeFault} (h : cut mode payload = (pieces, some e)) :
    run spec payload = failed spec payload pieces e := by
  rw [run_of_params hmode, h]

end Decoding

end RollupInput
