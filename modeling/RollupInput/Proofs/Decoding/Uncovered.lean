import RollupInput.Proofs.Decoding.Cutting
import RollupInput.Proofs.Payload

/-!
# Bytes outside of all ranges

A decode by ranges looks at a payload through its ranges only. What it asks of a payload is its size
and the bytes at the positions that some range covers, and nothing else: not in the values, not in
the target, and not in the texts of its faults, which quote data. The property is one of single
ranges, and cutting carries it from there to the whole decode.
-/

namespace RollupInput

/-- Whether a range that lies within a payload of some size has a position between its ends. -/
def ByteRange.Covers (r : ByteRange) (size position : Nat) : Prop :=
  Payload.IsWithin size r.start r.stop ∧ r.start ≤ position ∧ position < r.stop.getD size

namespace Decoding

variable {payload other : List UInt8}

/-- Whether two payloads have the same size, and the same bytes where some range covers them. -/
structure AgreeOn (ranges : List ByteRange) (payload other : List UInt8) : Prop where
  /-- They have the same size. -/
  length_eq : payload.length = other.length
  /-- They have the same byte at every position that is covered. -/
  getElem?_eq : ∀ position, (∃ r ∈ ranges, r.Covers payload.length position) →
    payload[position]? = other[position]?

/-- A range cuts the same bytes out of payloads that agree on it, or lies outside of both. -/
theorem AgreeOn.extract_eq {ranges : List ByteRange} (h : AgreeOn ranges payload other)
    {r : ByteRange} (hr : r ∈ ranges) :
    Payload.extract payload r.start r.stop = Payload.extract other r.start r.stop := by
  refine Payload.extract_eq h.length_eq fun hin position hstart hstop => ?_
  have hcovers : r.Covers payload.length position := ⟨hin, hstart, hstop⟩
  exact h.getElem?_eq position ⟨r, hr, hcovers⟩

/-- A range gives its piece from the bytes that it cuts out alone. -/
theorem rangePiece_eq [Abi.Memory] {r : ByteRange} (index : Nat)
    (h : Payload.extract payload r.start r.stop = Payload.extract other r.start r.stop) :
    rangePiece payload index r = rangePiece other index r := by
  unfold rangePiece
  rw [h]

/-- Ranges give their pieces, up to the first that fails, from the bytes that they cut out alone. -/
theorem rangePieces_eq [Abi.Memory] {ranges : List ByteRange} (index : Nat)
    (h : ∀ r ∈ ranges,
      Payload.extract payload r.start r.stop = Payload.extract other r.start r.stop) :
    rangePieces payload index ranges = rangePieces other index ranges := by
  induction ranges generalizing index with
  | nil => rfl
  | cons r rest ih =>
    have hpiece := rangePiece_eq index (h r (List.mem_cons_self ..))
    have hrest := ih (index + 1) fun r hr => h r (List.mem_cons_of_mem _ hr)
    rw [rangePieces, rangePieces, hpiece, hrest]

/-- The bytes outside of all ranges have no part in a decode: if a specification has ranges, then
payloads of the same size that have the same bytes wherever a range covers them come to the same. -/
theorem uncovered_not_read [Abi.Memory]
    {spec : Specification} {mode : ParamsMode} {ranges : List ByteRange}
    (hmode : spec.mode = .params mode) (hranges : mode.ranges = some ranges) (hne : ranges ≠ [])
    (h : AgreeOn ranges payload other) : EndsLike (run spec payload) (run spec other) := by
  refine endsLike_run hmode hmode rfl rfl ?_
  rw [cut_of_ranges hranges hne, cut_of_ranges hranges hne]
  exact rangePieces_eq 0 fun r hr => h.extract_eq hr

/-- A byte in front and a number as the target, with a byte between them that is skipped. The last
range would cover that byte in a longer payload. -/
def skippedByte : ParamsMode :=
  ⟨["uint256 amount"],
    some [⟨0, some 1, some "head", none, none⟩, ⟨2, some 34, some "body", none, none⟩,
      ⟨1, some 40, some "note", none, some true⟩], some "body"⟩

attribute [local instance] Abi.Memory.usual

/-- The byte between the ranges has no part in the decode. -/
theorem skippedByte_not_read :
    (run (bare skippedByte) (1 :: 7 :: List.replicate 32 0)).isResolved = true ∧
    EndsLike (run (bare skippedByte) (1 :: 7 :: List.replicate 32 0))
      (run (bare skippedByte) (1 :: 9 :: List.replicate 32 0)) := by
  have hagree : AgreeOn (skippedByte.ranges.getD []) (1 :: 7 :: List.replicate 32 0)
      (1 :: 9 :: List.replicate 32 0) := by
    refine ⟨rfl, ?_⟩
    rintro position ⟨r, hr, hwithin, hstart, hstop⟩
    match position with
    | 0 => rfl
    | 1 =>
      have hmem : r = ⟨0, some 1, some "head", none, none⟩ ∨
          r = ⟨2, some 34, some "body", none, none⟩ ∨
          r = ⟨1, some 40, some "note", none, some true⟩ := by
        simpa [skippedByte] using hr
      -- Only the last range has this position between its ends, and it does not lie within.
      rcases hmem with rfl | rfl | rfl
      · exact absurd hstop (by decide)
      · exact absurd hstart (by decide)
      · exact absurd (hwithin.stop_le 40 rfl).2 (by decide)
    | position + 2 => rfl
  exact ⟨by decide +kernel, uncovered_not_read rfl rfl (by decide) hagree⟩

end Decoding

end RollupInput
