import RollupInput.Proofs.Decoding.Cutting
import RollupInput.Proofs.Decoding.Ending
import RollupInput.Proofs.Payload

/-!
# Ranges that may be missing

A range that may be missing is forgiven one thing, to lie outside the payload. Whatever else goes
wrong with it, in its type or in its bytes, ends the decode all the same. Where a range is forgiven,
an empty piece stands in its place, and the ranges behind it go on as they would behind any other
piece.
-/

namespace RollupInput

/-- The range, but it may be missing. -/
def ByteRange.forgiven (r : ByteRange) : ByteRange := { r with optional := some true }

/-- The mode with another range at an index. -/
def ParamsMode.withRange (mode : ParamsMode) (index : Nat) (r : ByteRange) : ParamsMode :=
  { mode with ranges := mode.ranges.map fun ranges => ranges.set index r }

namespace Decoding

open Abi

variable {spec : Specification} {mode : ParamsMode} {ranges : List ByteRange} {index : Nat}
  {payload : List UInt8}

/-- Whether a decode has failed at the range of an index, with a piece of each range before it,
because the range lies outside the payload. -/
def FailsOutside (d : Decoding) (index : Nat) : Prop :=
  d.pieces.length = index ∧ ∃ edge offset size, d.error = some (.outOfBounds edge offset size)

/-- Whether a decode cuts the payload into some pieces, and fails with them if a range fails. -/
structure CutsTo [Memory] (spec : Specification) (mode : ParamsMode) (payload : List UInt8)
    (pieces : List Piece) (fault : Option DecodeFault) : Prop where
  /-- The first stage finds the pieces. -/
  sliced_pieces : (sliced mode (start spec payload)).pieces = pieces
  /-- The first stage ends with the fault. -/
  sliced_error : (sliced mode (start spec payload)).error = fault
  /-- Further pieces come behind these. -/
  pieces_first : pieces <+: (run spec payload).pieces
  /-- A fault ends the decode. -/
  ends : ∀ e, fault = some e →
    (run spec payload).error = some e ∧ (run spec payload).pieces = pieces

/-- A decode cuts the payload as the mode says. -/
theorem cutsTo_of_cut [Memory] (hmode : spec.mode = .params mode) {pieces : List Piece}
    {fault : Option DecodeFault} (h : cut mode payload = (pieces, fault)) :
    CutsTo spec mode payload pieces fault := by
  have hpieces := pieces_sliced spec mode payload
  have herror := error_sliced spec mode payload
  rw [h] at hpieces herror
  cases fault with
  | some e =>
    have hrun := run_of_cut_error hmode h
    refine ⟨hpieces, herror, by rw [hrun]; exact List.prefix_rfl, ?_⟩
    rintro x ⟨⟩
    rw [hrun]
    exact ⟨rfl, rfl⟩
  | none =>
    refine ⟨hpieces, herror, ?_, fun _ hx => nomatch hx⟩
    rw [run_of_params hmode, h]
    dsimp only
    cases unwrap mode pieces with
    | error e => exact List.prefix_rfl
    | ok more => exact List.prefix_append pieces more

/-- What is cut by a list of ranges, seen from one of them: the ranges before it, its own piece, and
the ranges behind it, which are cut out whatever the piece is. -/
theorem cut_at [Memory] (hranges : mode.ranges = some ranges) (hindex : index < ranges.length)
    (payload : List UInt8) :
    cut mode payload =
      match rangePieces payload 0 (ranges.take index) with
      | (pieces, some e) => (pieces, some e)
      | (pieces, none) =>
        match rangePiece payload index ranges[index] with
        | .error e => (pieces, some e)
        | .ok piece =>
          (pieces ++ piece :: (rangePieces payload (index + 1) (ranges.drop (index + 1))).1,
            (rangePieces payload (index + 1) (ranges.drop (index + 1))).2) := by
  have hsplit : ranges = ranges.take index ++ ranges[index] :: ranges.drop (index + 1) := by
    rw [List.getElem_cons_drop, List.take_append_drop]
  have hplace : 0 + (ranges.take index).length = index := by
    rw [Nat.zero_add, List.length_take_of_le (Nat.le_of_lt hindex)]
  rw [cut_of_ranges hranges (List.ne_nil_of_length_pos (Nat.zero_lt_of_lt hindex))]
  conv => lhs; rw [hsplit]
  rw [rangePieces_append, hplace, rangePieces]
  obtain ⟨pieces, e⟩ := rangePieces payload 0 (ranges.take index)
  cases e with
  | some e => rfl
  | none =>
    dsimp only
    cases rangePiece payload index ranges[index] with
    | error e => rw [List.append_nil]
    | ok piece => rfl

/-- Another range at an index changes what is cut there only. -/
theorem cut_withRange [Memory]
    (hranges : mode.ranges = some ranges) (hindex : index < ranges.length)
    (r : ByteRange) (payload : List UInt8) :
    cut (mode.withRange index r) payload =
      match rangePieces payload 0 (ranges.take index) with
      | (pieces, some e) => (pieces, some e)
      | (pieces, none) =>
        match rangePiece payload index r with
        | .error e => (pieces, some e)
        | .ok piece =>
          (pieces ++ piece :: (rangePieces payload (index + 1) (ranges.drop (index + 1))).1,
            (rangePieces payload (index + 1) (ranges.drop (index + 1))).2) := by
  have hother : (mode.withRange index r).ranges = some (ranges.set index r) := by
    rw [ParamsMode.withRange, hranges, Option.map_some]
  have hlength : index < (ranges.set index r).length := by
    rwa [List.length_set]
  rw [cut_at hother hlength, List.take_set_of_le (Nat.le_refl index), List.getElem_set_self,
    List.drop_set_of_lt (Nat.lt_succ_self index)]

/-- A range within the payload is cut out alike whether it may be missing or not. -/
theorem rangePiece_forgiven [Memory] {r : ByteRange}
    (h : Payload.IsWithin payload.length r.start r.stop) :
    rangePiece payload index r.forgiven = rangePiece payload index r := by
  have hextract := Payload.extract_of_isWithin h
  unfold rangePiece ByteRange.forgiven
  dsimp only
  rw [hextract]
  rfl

/-- A range outside the payload that may be missing gives an empty piece, whatever its type. -/
theorem rangePiece_of_missing [Memory] {r : ByteRange} (hmissing : r.mayBeMissing = true)
    (h : ¬Payload.IsWithin payload.length r.start r.stop) :
    rangePiece payload index r = .ok ⟨r.listedName index, [], some (.bytes [])⟩ := by
  obtain ⟨edge, offset, herror⟩ := Payload.exists_extract_error h
  unfold rangePiece
  rw [herror payload rfl, hmissing]
  rfl

/-- A range that must be there fails for lying outside the payload exactly if it does. -/
theorem rangePiece_outOfBounds_iff [Memory] {r : ByteRange} (hneeded : r.mayBeMissing = false) :
    (∃ edge offset size, rangePiece payload index r = .error (.outOfBounds edge offset size)) ↔
      ¬Payload.IsWithin payload.length r.start r.stop := by
  constructor
  · rintro ⟨edge, offset, size, h⟩ hin
    cases isRangeFault_of_rangePiece_error h with
    | params hparams => cases hparams
    | outside hr _ hextract =>
      obtain rfl := List.mem_singleton.mp hr
      rw [Payload.extract_of_isWithin hin] at hextract
      cases hextract
  · intro h
    obtain ⟨edge, offset, herror⟩ := Payload.exists_extract_error h
    refine ⟨edge, offset, payload.length, ?_⟩
    unfold rangePiece
    rw [herror payload rfl, hneeded]
    rfl

/-- What becomes of a decode at the range of an index. -/
inductive ComesTo [Memory] (spec : Specification) (ranges : List ByteRange) (index : Nat)
    (hindex : index < ranges.length) (payload : List UInt8) : Prop where
  /-- A range before it has failed, so there are too few pieces. -/
  | failsBefore {pieces : List Piece} {e : DecodeFault}
      (hfront : rangePieces payload 0 (ranges.take index) = (pieces, some e))
      (hfew : (run spec payload).pieces.length < index)
  /-- It has failed itself, with the pieces of the ranges before it. -/
  | fails {pieces : List Piece} {e : DecodeFault}
      (hfront : rangePieces payload 0 (ranges.take index) = (pieces, none))
      (hpiece : rangePiece payload index ranges[index] = .error e)
      (herror : (run spec payload).error = some e) (hpieces : (run spec payload).pieces = pieces)
  /-- It has given a piece, so there are more pieces than ranges before it. -/
  | isCut {pieces : List Piece} {piece : Piece}
      (hfront : rangePieces payload 0 (ranges.take index) = (pieces, none))
      (hpiece : rangePiece payload index ranges[index] = .ok piece)
      (hmany : index < (run spec payload).pieces.length)

/-- A decode comes to one of these at each of its ranges. -/
theorem comesTo_run [Memory]
    (hmode : spec.mode = .params mode) (hranges : mode.ranges = some ranges)
    (hindex : index < ranges.length) (payload : List UInt8) :
    ComesTo spec ranges index hindex payload := by
  have hfront : (ranges.take index).length = index :=
    List.length_take_of_le (Nat.le_of_lt hindex)
  have hcut := cut_at hranges hindex payload
  cases hpieces : rangePieces payload 0 (ranges.take index) with
  | mk pieces fault =>
    rw [hpieces] at hcut
    cases fault with
    | some e =>
      have hends := (cutsTo_of_cut hmode hcut).ends e rfl
      obtain ⟨hless, -⟩ := exists_of_rangePieces_error hpieces
      refine .failsBefore hpieces ?_
      rw [hends.2]
      omega
    | none =>
      have hlength := length_of_rangePieces hpieces
      dsimp only at hcut
      cases hpiece : rangePiece payload index ranges[index] with
      | error e =>
        rw [hpiece] at hcut
        have hends := (cutsTo_of_cut hmode hcut).ends e rfl
        exact .fails hpieces hpiece hends.1 hends.2
      | ok piece =>
        rw [hpiece] at hcut
        have hmany := (cutsTo_of_cut hmode hcut).pieces_first.length_le
        rw [List.length_append, List.length_cons] at hmany
        refine .isCut hpieces hpiece ?_
        omega

/-- A decode fails outside the payload at a range that must be there exactly if the ranges before it
are cut out and it does not lie within the payload. -/
theorem failsOutside_iff [Memory]
    (hmode : spec.mode = .params mode) (hranges : mode.ranges = some ranges)
    (hindex : index < ranges.length) (hneeded : ranges[index].mayBeMissing = false) :
    FailsOutside (run spec payload) index ↔
      (∃ pieces, rangePieces payload 0 (ranges.take index) = (pieces, none)) ∧
        ¬Payload.IsWithin payload.length ranges[index].start ranges[index].stop := by
  have hfront : (ranges.take index).length = index :=
    List.length_take_of_le (Nat.le_of_lt hindex)
  rw [← @rangePiece_outOfBounds_iff index payload _ ranges[index] hneeded]
  cases comesTo_run hmode hranges hindex payload with
  | failsBefore hpieces hfew =>
    constructor
    · rintro ⟨hlength, -⟩
      omega
    · rintro ⟨⟨found, hfound⟩, -⟩
      rw [hpieces] at hfound
      cases hfound
  | fails hpieces hpiece herror hkept =>
    have hlength := length_of_rangePieces hpieces
    rw [FailsOutside, herror, hkept, hpiece]
    constructor
    · rintro ⟨-, edge, offset, size, he⟩
      exact ⟨⟨_, hpieces⟩, edge, offset, size, congrArg Except.error (Option.some.inj he)⟩
    · rintro ⟨-, edge, offset, size, he⟩
      exact ⟨hlength.trans hfront, edge, offset, size, congrArg some (Except.error.inj he)⟩
  | isCut hpieces hpiece hmany =>
    constructor
    · rintro ⟨hlength, -⟩
      omega
    · rintro ⟨-, edge, offset, size, he⟩
      rw [hpiece] at he
      cases he

/-- A decode all of whose ranges may be missing never fails for a range outside the payload. -/
theorem error_ne_outOfBounds [Memory] (hmode : spec.mode = .params mode)
    (hmissing : ∀ r ∈ mode.ranges.getD [], r.mayBeMissing = true) (edge : RangeEdge)
    (offset size : Nat) : (run spec payload).error ≠ some (.outOfBounds edge offset size) := by
  intro herror
  cases (hasEnded_run_of_params hmode payload).of_params mode hmode _ herror with
  | cut hfault =>
    cases hfault with
    | params hparams => cases hparams
    | outside hr hneeded =>
      rw [hmissing _ hr] at hneeded
      cases hneeded

/-- Unless a decode fails outside the payload at a range, letting that range be missing makes no
difference. -/
theorem endsLike_forgiving [Memory] {forgiving : Specification} (hmode : spec.mode = .params mode)
    (hranges : mode.ranges = some ranges) (hindex : index < ranges.length)
    (hneeded : ranges[index].mayBeMissing = false)
    (hforgiving : forgiving.mode = .params (mode.withRange index ranges[index].forgiven))
    (h : ¬FailsOutside (run spec payload) index) :
    EndsLike (run forgiving payload) (run spec payload) := by
  rw [failsOutside_iff hmode hranges hindex hneeded] at h
  refine endsLike_run hforgiving hmode rfl rfl ?_
  rw [cut_withRange hranges hindex, cut_at hranges hindex]
  cases hpieces : rangePieces payload 0 (ranges.take index) with
  | mk pieces fault =>
    cases fault with
    | some e => rfl
    | none =>
      have hin : Payload.IsWithin payload.length ranges[index].start ranges[index].stop := by
        by_contra hout
        exact h ⟨⟨pieces, hpieces⟩, hout⟩
      dsimp only
      rw [rangePiece_forgiven hin]

/-- Where a decode fails at a range, any range that gives a piece in its place lets the decode go on
with the ranges behind, whose pieces and whose fault are always the same. -/
theorem cutsTo_withRange [Memory] {other : Specification} {r : ByteRange} {pieces : List Piece}
    {piece : Piece} (hranges : mode.ranges = some ranges) (hindex : index < ranges.length)
    (hother : other.mode = .params (mode.withRange index r))
    (hfront : rangePieces payload 0 (ranges.take index) = (pieces, none))
    (hpiece : rangePiece payload index r = .ok piece) :
    CutsTo other (mode.withRange index r) payload
      (pieces ++ piece :: (rangePieces payload (index + 1) (ranges.drop (index + 1))).1)
      (rangePieces payload (index + 1) (ranges.drop (index + 1))).2 := by
  refine cutsTo_of_cut hother ?_
  rw [cut_withRange hranges hindex, hfront]
  dsimp only
  rw [hpiece]

/-- The pieces of a decode that fails outside the payload at a range are those of the ranges before
it, and the range does not lie within the payload. -/
theorem rangePieces_of_failsOutside [Memory] (hmode : spec.mode = .params mode)
    (hranges : mode.ranges = some ranges) (hindex : index < ranges.length)
    (hneeded : ranges[index].mayBeMissing = false)
    (h : FailsOutside (run spec payload) index) :
    rangePieces payload 0 (ranges.take index) = ((run spec payload).pieces, none) ∧
      ¬Payload.IsWithin payload.length ranges[index].start ranges[index].stop := by
  have hout := ((failsOutside_iff hmode hranges hindex hneeded).mp h).2
  obtain ⟨hlength, edge, offset, size, herror⟩ := h
  refine ⟨?_, hout⟩
  cases comesTo_run hmode hranges hindex payload with
  | failsBefore hpieces hfew => omega
  | fails hpieces hpiece hfault hkept => rw [hpieces, hkept]
  | isCut hpieces hpiece hmany => omega

/-- Letting a range be missing forgives it to lie outside the payload, and nothing else. Unless the
decode fails for that at the range, it comes to the same as before. If it does, an empty piece stands
for the range behind the pieces that were there, whatever its type, and the decode goes on with the
ranges behind, whose pieces and whose fault are the same behind any other piece that a range gives at
this index. So a decode whose ranges may all be missing never fails for one outside the payload. -/
theorem forgives_missing [Memory] {forgiving : Specification} (hmode : spec.mode = .params mode)
    (hranges : mode.ranges = some ranges) (hindex : index < ranges.length)
    (hneeded : ranges[index].mayBeMissing = false)
    (hforgiving : forgiving.mode = .params (mode.withRange index ranges[index].forgiven))
    (payload : List UInt8) :
    (¬FailsOutside (run spec payload) index →
      EndsLike (run forgiving payload) (run spec payload)) ∧
    (FailsOutside (run spec payload) index →
      ∃ later fault,
        rangePieces payload (index + 1) (ranges.drop (index + 1)) = (later, fault) ∧
        CutsTo forgiving (mode.withRange index ranges[index].forgiven) payload
          ((run spec payload).pieces ++
            ⟨ranges[index].listedName index, [], some (.bytes [])⟩ :: later) fault ∧
        ∀ other r piece, other.mode = .params (mode.withRange index r) →
          rangePiece payload index r = .ok piece →
          CutsTo other (mode.withRange index r) payload
            ((run spec payload).pieces ++ piece :: later) fault) ∧
    ∀ other mode', other.mode = .params mode' →
      (∀ r ∈ mode'.ranges.getD [], r.mayBeMissing = true) → ∀ edge offset size,
        (run other payload).error ≠ some (.outOfBounds edge offset size) := by
  refine ⟨endsLike_forgiving hmode hranges hindex hneeded hforgiving, ?_,
    fun other mode' hother hall => error_ne_outOfBounds hother hall⟩
  intro hfails
  obtain ⟨hfront, hout⟩ := rangePieces_of_failsOutside hmode hranges hindex hneeded hfails
  have hempty : rangePiece payload index ranges[index].forgiven =
      .ok ⟨ranges[index].listedName index, [], some (.bytes [])⟩ := rangePiece_of_missing rfl hout
  refine ⟨_, _, rfl, cutsTo_withRange hranges hindex hforgiving hfront hempty, ?_⟩
  intro other r piece hother hpiece
  exact cutsTo_withRange hranges hindex hother hfront hpiece

/-- A byte in front, a number far behind it, and the byte again. -/
def farNumber : ParamsMode :=
  ⟨[], some [⟨0, some 1, some "head", none, none⟩, ⟨10, none, some "tail", some "uint256", none⟩,
    ⟨0, none, none, none, none⟩], none⟩

attribute [local instance] Memory.usual

/-- Of a single byte the number is missing, and once it may be, both other ranges are cut out. -/
theorem farNumber_forgiven :
    FailsOutside (run (bare farNumber) [1]) 1 ∧
    CutsTo (bare (farNumber.withRange 1
        (ByteRange.forgiven ⟨10, none, some "tail", some "uint256", none⟩)))
      (farNumber.withRange 1 (ByteRange.forgiven ⟨10, none, some "tail", some "uint256", none⟩))
      [1] [⟨"head", [1], some (.bytes [1])⟩, ⟨"tail", [], some (.bytes [])⟩,
        ⟨"param2", [1], some (.bytes [1])⟩] none := by
  have hfails : FailsOutside (run (bare farNumber) [1]) 1 :=
    ⟨by decide +kernel, .start, 10, 1, by decide +kernel⟩
  obtain ⟨-, hgoesOn, -⟩ := @forgives_missing (bare farNumber) farNumber _ 1 _
    (bare (farNumber.withRange 1
      (ByteRange.forgiven ⟨10, none, some "tail", some "uint256", none⟩))) rfl rfl
    (by decide) rfl rfl [1]
  obtain ⟨later, fault, hlater, hcuts, -⟩ := hgoesOn hfails
  cases hlater
  exact ⟨hfails, hcuts⟩

end Decoding

end RollupInput
