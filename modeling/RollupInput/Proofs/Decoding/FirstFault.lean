import RollupInput.Proofs.Decoding.Cutting

/-!
# The first fault

Ranges are independent of each other. The first stage of a decode fails exactly if one of its ranges
would fail as the only one; the first such range gives the error, and the ranges before it have left
the pieces that each of them gives alone, up to the names that are made from places. Declarations and
target have no part in this.
-/

namespace RollupInput

/-- The mode with a range as its only one. -/
def ParamsMode.only (mode : ParamsMode) (r : ByteRange) : ParamsMode :=
  { mode with ranges := some [r] }

namespace Decoding

variable {spec : Specification} {mode : ParamsMode} {ranges : List ByteRange} {r : ByteRange}
  {payload : List UInt8}

/-- The first stage of a decode with a range as the only one. -/
def slicedAlone [Abi.Memory]
    (mode : ParamsMode) (r : ByteRange) (payload : List UInt8) : Decoding :=
  sliced (mode.only r) (start (bare (mode.only r)) payload)

/-- A single range is cut out at the first place. -/
theorem cut_only [Abi.Memory] (mode : ParamsMode) (r : ByteRange) (payload : List UInt8) :
    cut (mode.only r) payload =
      match rangePiece payload 0 r with
      | .error e => ([], some e)
      | .ok piece => ([piece], none) := by
  have hranges : (mode.only r).ranges = some [r] := rfl
  rw [cut_of_ranges hranges (List.cons_ne_nil r []), rangePieces]
  cases rangePiece payload 0 r with
  | error e => rfl
  | ok piece => rfl

/-- Alone, a range fails by the fault of its piece, wherever it may stand in a list. -/
theorem error_slicedAlone [Abi.Memory] (mode : ParamsMode) (r : ByteRange) (payload : List UInt8)
    (index : Nat) : (slicedAlone mode r payload).error = fault? (rangePiece payload index r) := by
  rw [slicedAlone, error_sliced, cut_only, rangePiece_movedTo payload 0 index r, fault?_map]
  cases rangePiece payload 0 r with
  | error e => rfl
  | ok piece => rfl

/-- A range that gives its piece at some place gives it alone, up to a name made from the place. -/
theorem pieces_slicedAlone [Abi.Memory] (mode : ParamsMode) {index : Nat} {piece : Piece}
    (h : rangePiece payload index r = .ok piece) :
    ∃ alone, (slicedAlone mode r payload).pieces = [alone] ∧
      r.movedTo payload index alone = piece := by
  rw [rangePiece_movedTo payload 0 index r] at h
  obtain ⟨alone, halone, hmoved⟩ := ok_of_map h
  refine ⟨alone, ?_, hmoved⟩
  rw [slicedAlone, pieces_sliced, cut_only, halone]

/-- If ranges are all cut out, none of them fails alone. -/
theorem error_slicedAlone_of_rangePieces [Abi.Memory]
    {index : Nat} {pieces : List Piece} (mode : ParamsMode)
    (h : rangePieces payload index ranges = (pieces, none)) (hr : r ∈ ranges) :
    (slicedAlone mode r payload).error = none := by
  obtain ⟨place, hplace, rfl⟩ := List.mem_iff_getElem.mp hr
  obtain ⟨piece, hpiece, -⟩ := exists_of_rangePieces h hplace
  rw [error_slicedAlone mode _ payload (index + place), hpiece]
  rfl

/-- Whether a decode has failed at the range of an index, the first that fails alone. -/
structure FailsFirstAt [Abi.Memory]
    (mode : ParamsMode) (ranges : List ByteRange) (payload : List UInt8)
    (d : Decoding) (index : Nat) : Prop where
  /-- There is a range at the index. -/
  index_lt : index < ranges.length
  /-- No range before it fails alone. -/
  before : ∀ r ∈ ranges.take index, (slicedAlone mode r payload).hasFailed = false
  /-- The range itself does. -/
  fails : (slicedAlone mode ranges[index] payload).hasFailed = true
  /-- Its error is the one of the decode. -/
  error_eq : d.error = (slicedAlone mode ranges[index] payload).error
  /-- There is a piece for each range before it. -/
  length_eq : d.pieces.length = index
  /-- That piece is the one of the range alone, up to a name made from the place of the range. -/
  getElem?_eq : ∀ place, ∀ _ : place < index, ∃ alone,
    (slicedAlone mode ranges[place] payload).pieces = [alone] ∧
      d.pieces[place]? = some (ranges[place].movedTo payload place alone)

/-- A decode whose cutting ends with a fault has failed at the first range that fails alone. -/
theorem failsFirstAt_of_cut [Abi.Memory]
    (hmode : spec.mode = .params mode) (hranges : mode.ranges = some ranges)
    (hne : ranges ≠ []) {pieces : List Piece} {e : DecodeFault}
    (h : cut mode payload = (pieces, some e)) :
    FailsFirstAt mode ranges payload (run spec payload) pieces.length := by
  rw [run_of_cut_error hmode h]
  rw [cut_of_ranges hranges hne] at h
  obtain ⟨hfirst, hfront, hfault⟩ := exists_of_rangePieces_error h
  rw [Nat.zero_add] at hfault
  have herror : (slicedAlone mode ranges[pieces.length] payload).error = some e := by
    rw [error_slicedAlone mode _ payload pieces.length, hfault]
    rfl
  refine ⟨hfirst, ?_, ?_, ?_, rfl, ?_⟩
  · intro r hr
    rw [hasFailed, error_slicedAlone_of_rangePieces mode hfront hr]
    rfl
  · rw [hasFailed, herror]
    rfl
  · rw [herror]
    rfl
  · intro place hplace
    have hlength : (ranges.take pieces.length).length = pieces.length :=
      List.length_take_of_le (Nat.le_of_lt hfirst)
    obtain ⟨piece, hpiece, hget⟩ := exists_of_rangePieces hfront (hlength.symm ▸ hplace)
    rw [List.getElem_take, Nat.zero_add] at hpiece
    obtain ⟨alone, halone, hmoved⟩ := pieces_slicedAlone mode hpiece
    exact ⟨alone, halone, hget.trans (congrArg some hmoved.symm)⟩

/-- Declarations and target have no part in the first stage, if there are ranges. -/
theorem endsLike_sliced [Abi.Memory] {other : Specification} {mode' : ParamsMode}
    (hranges : mode.ranges = some ranges) (hne : ranges ≠ [])
    (hsame : mode'.ranges = mode.ranges) :
    EndsLike (sliced mode' (start other payload)) (sliced mode (start spec payload)) := by
  rw [sliced_start, sliced_start, cut_of_ranges hranges hne,
    cut_of_ranges (hsame.trans hranges) hne]
  obtain ⟨pieces, e⟩ := rangePieces payload 0 ranges
  cases e with
  | some e => exact ⟨rfl, rfl, rfl, rfl⟩
  | none => exact ⟨rfl, rfl, rfl, rfl⟩

/-- If the first stage fails, a fault has ended the cutting. -/
theorem exists_of_hasFailed [Abi.Memory] (h : (sliced mode (start spec payload)).hasFailed = true) :
    ∃ pieces e, cut mode payload = (pieces, some e) := by
  rw [hasFailed, error_sliced] at h
  obtain ⟨e, he⟩ := Option.isSome_iff_exists.mp h
  exact ⟨(cut mode payload).1, e, Prod.ext rfl he⟩

/-- The first stage fails exactly if some range fails alone. -/
theorem hasFailed_sliced_iff [Abi.Memory]
    (spec : Specification) (hranges : mode.ranges = some ranges)
    (hne : ranges ≠ []) (payload : List UInt8) :
    (sliced mode (start spec payload)).hasFailed = true ↔
      ∃ r ∈ ranges, (slicedAlone mode r payload).hasFailed = true := by
  constructor
  · intro h
    obtain ⟨pieces, e, hcut⟩ := exists_of_hasFailed h
    have hfirst := @failsFirstAt_of_cut (bare mode) mode ranges payload _ rfl hranges hne _ _ hcut
    exact ⟨_, List.getElem_mem hfirst.index_lt, hfirst.fails⟩
  · rintro ⟨r, hr, hfails⟩
    rw [hasFailed, error_sliced, cut_of_ranges hranges hne]
    cases hpieces : rangePieces payload 0 ranges with
    | mk pieces fault =>
      cases fault with
      | some e => rfl
      | none =>
        rw [hasFailed, error_slicedAlone_of_rangePieces mode hpieces hr] at hfails
        cases hfails

/-- A decode that ends with the first stage ends alike whatever the declarations and the target
are. -/
theorem endsLike_of_hasFailed [Abi.Memory] {other : Specification} {mode' : ParamsMode}
    (hmode : spec.mode = .params mode) (hother : other.mode = .params mode')
    (hranges : mode.ranges = some ranges) (hne : ranges ≠ []) (hsame : mode'.ranges = mode.ranges)
    (h : (sliced mode (start spec payload)).hasFailed = true) :
    EndsLike (run other payload) (run spec payload) := by
  obtain ⟨pieces, e, hcut⟩ := exists_of_hasFailed h
  have hcut' : cut mode' payload = (pieces, some e) := by
    rwa [cut_of_ranges (hsame.trans hranges) hne, ← cut_of_ranges hranges hne]
  rw [run_of_cut_error hmode hcut, run_of_cut_error hother hcut']
  exact ⟨rfl, rfl, rfl, rfl⟩

/-- A first stage that fails keeps the good ranges in front. It fails exactly if some range fails as
the only one; the first such range gives the error of the decode, and the pieces are those of the
ranges before it, in order, each as the range gives it alone, up to a name made from its place. What
the declarations are and whether there is a target makes no difference to the first stage, nor to a
decode that ends there. -/
theorem keeps_good_ranges [Abi.Memory]
    (hmode : spec.mode = .params mode) (hranges : mode.ranges = some ranges)
    (hne : ranges ≠ []) (payload : List UInt8) :
    ((sliced mode (start spec payload)).hasFailed = true ↔
      ∃ r ∈ ranges, (slicedAlone mode r payload).hasFailed = true) ∧
    ((sliced mode (start spec payload)).hasFailed = true →
      ∃ index, FailsFirstAt mode ranges payload (run spec payload) index) ∧
    ∀ other mode', other.mode = .params mode' → mode'.ranges = mode.ranges →
      EndsLike (sliced mode' (start other payload)) (sliced mode (start spec payload)) ∧
        ((sliced mode (start spec payload)).hasFailed = true →
          EndsLike (run other payload) (run spec payload)) := by
  refine ⟨hasFailed_sliced_iff spec hranges hne payload, ?_, ?_⟩
  · intro h
    obtain ⟨pieces, e, hcut⟩ := exists_of_hasFailed h
    exact ⟨_, failsFirstAt_of_cut hmode hranges hne hcut⟩
  · intro other mode' hother hsame
    refine ⟨endsLike_sliced hranges hne hsame, fun h => ?_⟩
    exact endsLike_of_hasFailed hmode hother hranges hne hsame h

/-- Two bytes, of which the first has no name, then a type that nobody knows, and a byte that is not
there. -/
def unknownThird : ParamsMode :=
  ⟨["uint256 amount"], some [⟨1, some 2, some "tail", none, none⟩, ⟨0, some 1, none, none, none⟩,
    ⟨0, none, none, some "unheard", none⟩, ⟨9, none, none, none, none⟩], some "amount"⟩

attribute [local instance] Abi.Memory.usual

/-- The type ends the decode, with the two bytes in front of it. -/
theorem unknownThird_fails :
    (sliced unknownThird (start (bare unknownThird) [1, 2])).hasFailed = true ∧
    (run (bare unknownThird) [1, 2]).error = some (.malformedDeclaration "unheard"
      "unknown type \"unheard\": invalid type string: unheard") ∧
    ∃ index, FailsFirstAt unknownThird (unknownThird.ranges.getD []) [1, 2]
      (run (bare unknownThird) [1, 2]) index := by
  have hfailed : (sliced unknownThird (start (bare unknownThird) [1, 2])).hasFailed = true := by
    decide +kernel
  have hfirst := (@keeps_good_ranges (bare unknownThird) unknownThird _ _ rfl rfl
    (List.cons_ne_nil _ _) [1, 2]).2.1 hfailed
  exact ⟨hfailed, by decide +kernel, hfirst⟩

end Decoding

end RollupInput
