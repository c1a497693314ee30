import RollupInput.Payload
import Mathlib.Data.List.Basic

/-!
# Cutting bytes out of a payload

Whether bytes can be cut out is decided by where they start and stop and by the size of the payload
alone. If they can, they are the bytes that stand there, and no others have a part in them; if not,
the fault names an end and the size, whatever the bytes are.
-/

namespace RollupInput.Payload

variable {payload other : List UInt8} {size start : Nat} {stop : Option Nat}

/-- Whether a start and a stop lie within a payload of some size. -/
structure IsWithin (size start : Nat) (stop : Option Nat) : Prop where
  /-- The start is zero or in front of a byte. -/
  start_lt : start = 0 ∨ start < size
  /-- The stop is neither before the start nor behind the end. -/
  stop_le : ∀ s, stop = some s → start ≤ s ∧ s ≤ size

/-- The bytes from a start up to a stop, or up to the end. -/
def between (payload : List UInt8) (start : Nat) (stop : Option Nat) : List UInt8 :=
  (payload.take (stop.getD payload.length)).drop start

/-- With a stop, the start and the stop lie in order, and both in the payload. -/
@[simp] theorem isWithin_some_iff {s : Nat} :
    IsWithin size start (some s) ↔ (start = 0 ∨ start < size) ∧ start ≤ s ∧ s ≤ size := by
  constructor
  · intro h
    exact ⟨h.start_lt, h.stop_le s rfl⟩
  · rintro ⟨hstart, hstop⟩
    exact ⟨hstart, fun s' hs' => Option.some.inj hs' ▸ hstop⟩

/-- Without a stop, only the start has to be in the payload. -/
@[simp] theorem isWithin_none_iff : IsWithin size start none ↔ start = 0 ∨ start < size := by
  constructor
  · intro h
    exact h.start_lt
  · intro h
    exact ⟨h, fun _ hs => nomatch hs⟩

/-- Up to a stop, the bytes behind it are left out. -/
theorem between_some (payload : List UInt8) (start s : Nat) :
    between payload start (some s) = (payload.take s).drop start := rfl

/-- Without a stop, the bytes up to the end are meant. -/
theorem between_none (payload : List UInt8) (start : Nat) :
    between payload start none = payload.drop start := by
  unfold between
  rw [Option.getD_none, List.take_length]

/-- What lies within a payload is cut out of it. -/
theorem extract_of_isWithin (h : IsWithin payload.length start stop) :
    extract payload start stop = .ok (between payload start stop) := by
  have hstart : (decide (0 < start) && decide (payload.length ≤ start)) = false := by
    rw [Bool.and_eq_false_iff, decide_eq_false_iff_not, decide_eq_false_iff_not]
    have hlt := h.start_lt
    omega
  unfold extract
  dsimp only
  rw [hstart, if_neg Bool.false_ne_true]
  cases stop with
  | none => rw [between_none]
  | some s =>
    rw [isWithin_some_iff] at h
    have hstop : (decide (payload.length < s) || decide (s < start)) = false := by
      rw [Bool.or_eq_false_iff, decide_eq_false_iff_not, decide_eq_false_iff_not]
      omega
    dsimp only
    rw [hstop, if_neg Bool.false_ne_true, between_some]

/-- What does not lie within a payload is refused, with a fault that the size decides. -/
theorem exists_extract_error (h : ¬IsWithin size start stop) :
    ∃ edge offset, ∀ payload : List UInt8, payload.length = size →
      extract payload start stop = .error (.outOfBounds edge offset size) := by
  by_cases hstart : start = 0 ∨ start < size
  · have hin : (decide (0 < start) && decide (size ≤ start)) = false := by
      rw [Bool.and_eq_false_iff, decide_eq_false_iff_not, decide_eq_false_iff_not]
      omega
    cases stop with
    | none => exact absurd (isWithin_none_iff.mpr hstart) h
    | some s =>
      rw [isWithin_some_iff] at h
      have hstop : (decide (size < s) || decide (s < start)) = true := by
        rw [Bool.or_eq_true, decide_eq_true_eq, decide_eq_true_eq]
        omega
      refine ⟨.stop, s, ?_⟩
      rintro payload rfl
      unfold extract
      dsimp only
      rw [hin, if_neg Bool.false_ne_true, hstop, if_pos rfl]
  · have hout : (decide (0 < start) && decide (size ≤ start)) = true := by
      rw [Bool.and_eq_true, decide_eq_true_eq, decide_eq_true_eq]
      omega
    refine ⟨.start, start, ?_⟩
    rintro payload rfl
    unfold extract
    dsimp only
    rw [hout, if_pos rfl]

/-- Cutting a payload fails by naming an edge and the size of the payload. -/
theorem extract_error {e : DecodeFault} (h : extract payload start stop = .error e) :
    ∃ edge offset, e = .outOfBounds edge offset payload.length := by
  by_cases hin : IsWithin payload.length start stop
  · rw [extract_of_isWithin hin] at h
    cases h
  · obtain ⟨edge, offset, herror⟩ := exists_extract_error hin
    rw [herror payload rfl] at h
    exact ⟨edge, offset, (Except.error.inj h).symm⟩

/-- Payloads that have the same bytes from a start up to a stop have the same bytes between. -/
theorem between_eq (hlength : payload.length = other.length)
    (h : ∀ k, start ≤ k → k < stop.getD payload.length → payload[k]? = other[k]?) :
    between payload start stop = between other start stop := by
  unfold between
  rw [← hlength]
  refine List.ext_getElem? fun k => ?_
  rw [List.getElem?_drop, List.getElem?_drop, List.getElem?_take, List.getElem?_take]
  by_cases hk : start + k < stop.getD payload.length
  · rw [if_pos hk, if_pos hk, h _ (Nat.le_add_right start k) hk]
  · rw [if_neg hk, if_neg hk]

/-- Payloads of one size are cut alike if they have the same bytes where something is cut out. -/
theorem extract_eq (hlength : payload.length = other.length)
    (h : IsWithin payload.length start stop →
      ∀ k, start ≤ k → k < stop.getD payload.length → payload[k]? = other[k]?) :
    extract payload start stop = extract other start stop := by
  by_cases hin : IsWithin payload.length start stop
  · have hother : IsWithin other.length start stop := hlength ▸ hin
    rw [extract_of_isWithin hin, extract_of_isWithin hother, between_eq hlength (h hin)]
  · obtain ⟨edge, offset, herror⟩ := exists_extract_error hin
    rw [herror payload rfl, herror other hlength.symm]

/-- The bytes up to a stop and those behind it are the bytes up to the end. -/
theorem between_append_drop {s : Nat} (hle : start ≤ s) (hend : s ≤ payload.length) :
    between payload start (some s) ++ payload.drop s = payload.drop start := by
  rw [between_some, ← List.drop_append_of_le_length, List.take_append_drop]
  rw [List.length_take]
  omega

end RollupInput.Payload
