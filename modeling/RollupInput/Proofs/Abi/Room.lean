import RollupInput.Abi.Room
import RollupInput.Proofs.Abi.HeadSize

/-!
# When there is room

Room that there is while cells are in use there is while fewer are, so a type has room by itself
where it has room behind others. How much memory is enough is a matter of the number of cells alone:
while a row is filled, the element that it takes copies of is in use beside them, and so twice the
cells of a type are never exceeded.
-/

namespace RollupInput.Abi

/-- An element takes a cell. -/
theorem AbiType.cells_pos (t : AbiType) : 1 ≤ t.cells := by
  cases t <;> unfold AbiType.cells <;> omega

variable [Memory] {inUse more size each : Nat}

/-- There is room for a row exactly if it has no cells, or if its block has addresses and is
granted, and memory holds its cells beside those that are in use. -/
theorem rowShortage_eq_none_iff :
    rowShortage inUse size each = none ↔
      size = 0 ∨ size * cellBytes < addressableBytes ∧
        Memory.grants inUse (size * cellBytes) = true ∧
        Memory.holds (inUse + size * each) = true := by
  unfold rowShortage
  by_cases hnone : size = 0
  · simp [hnone]
  · by_cases haddress : addressableBytes ≤ size * cellBytes
    · simp [hnone, haddress]
    · cases Memory.grants inUse (size * cellBytes) <;>
        cases Memory.holds (inUse + size * each) <;> simp [hnone, haddress, Nat.not_le.mp haddress]

/-- A row for which there is room has room while fewer cells are in use. -/
theorem rowShortage_eq_none_of_le (hle : inUse ≤ more) (h : rowShortage more size each = none) :
    rowShortage inUse size each = none := by
  rw [rowShortage_eq_none_iff] at h ⊢
  obtain hnone | ⟨haddress, hgrant, hhold⟩ := h
  · exact .inl hnone
  · exact .inr ⟨haddress, Memory.grants_of_le hle (Nat.le_refl _) hgrant,
      Memory.holds_of_le (Nat.add_le_add_right hle _) hhold⟩

/-- Memory gives a number of cells: their bytes have addresses and are granted in one block while as
many cells are in use, and it holds the cells. -/
structure Memory.Gives (cells : Nat) : Prop where
  /-- The bytes of the cells have addresses. -/
  addressable : cells * cellBytes < addressableBytes
  /-- The bytes of the cells are granted while as many cells are in use. -/
  granted : Memory.grants cells (cells * cellBytes) = true
  /-- Memory holds the cells. -/
  held : Memory.holds cells = true

/-- Memory that gives some cells gives fewer. -/
theorem Memory.Gives.mono {cells : Nat} (h : Memory.Gives more) (hle : cells ≤ more) :
    Memory.Gives cells where
  addressable := Nat.lt_of_le_of_lt (Nat.mul_le_mul_right _ hle) h.addressable
  granted := Memory.grants_of_le hle (Nat.mul_le_mul_right _ hle) h.granted
  held := Memory.holds_of_le hle h.held

/-- There is room for a row where memory gives the cells that are in use when it is full. -/
theorem rowShortage_of_gives (heach : 1 ≤ each) (h : Memory.Gives (inUse + size * each)) :
    rowShortage inUse size each = none := by
  have hsize : size ≤ inUse + size * each :=
    Nat.le_trans (Nat.le_mul_of_pos_right size heach) (Nat.le_add_left _ _)
  have hrow := h.mono hsize
  exact rowShortage_eq_none_iff.mpr (.inr ⟨hrow.addressable,
    Memory.grants_of_le (Nat.le_add_right _ _) (Nat.mul_le_mul_right _ hsize) h.granted, h.held⟩)

namespace AbiType

mutual

/-- A type that has room while some cells are in use has room while fewer are. -/
theorem shortage_eq_none_of_le (t : AbiType) {inUse more : Nat} (hle : inUse ≤ more)
    (h : t.shortage more = none) : t.shortage inUse = none := by
  cases t with
  | array element =>
    rw [shortage] at h ⊢
    exact shortage_eq_none_of_le element hle h
  | fixedArray element size =>
    rw [shortage, Option.or_eq_none_iff] at h ⊢
    exact ⟨shortage_eq_none_of_le element hle h.1,
      rowShortage_eq_none_of_le (Nat.add_le_add_right hle _) h.2⟩
  | tuple fields =>
    rw [shortage] at h ⊢
    exact firstShortage_eq_none_of_le fields hle h
  | _ => rfl

/-- Types that have room while some cells are in use have room while fewer are. -/
theorem firstShortage_eq_none_of_le (ts : List AbiType) {inUse more : Nat} (hle : inUse ≤ more)
    (h : firstShortage more ts = none) : firstShortage inUse ts = none := by
  cases ts with
  | nil => rfl
  | cons t rest =>
    rw [firstShortage, Option.or_eq_none_iff] at h ⊢
    exact ⟨shortage_eq_none_of_le t hle h.1,
      firstShortage_eq_none_of_le rest (Nat.add_le_add_right hle _) h.2⟩

end

mutual

/-- A type in which no array of fixed size is without elements has room where memory gives twice its
cells beside those that are in use. -/
theorem shortage_of_gives (t : AbiType) {inUse : Nat} (hfilled : t.isFilled = true)
    (h : Memory.Gives (inUse + 2 * t.cells)) : t.shortage inUse = none := by
  cases t with
  | array element =>
    rw [isFilled] at hfilled
    rw [cells] at h
    rw [shortage]
    exact shortage_of_gives element hfilled (h.mono (by omega))
  | fixedArray element size =>
    rw [isFilled, Bool.and_eq_true, bne_iff_ne] at hfilled
    rw [cells] at h
    -- A row of one cell or more has as many cells as the element that is copied into it, or more.
    have hone : element.cells ≤ size * element.cells :=
      Nat.le_mul_of_pos_left _ (Nat.pos_of_ne_zero hfilled.1)
    rw [shortage, Option.or_eq_none_iff]
    exact ⟨shortage_of_gives element hfilled.2 (h.mono (by omega)),
      rowShortage_of_gives (cells_pos element) (h.mono (by omega))⟩
  | tuple fields =>
    rw [isFilled] at hfilled
    rw [cells] at h
    rw [shortage]
    exact firstShortage_of_gives fields hfilled (h.mono (by omega))
  | _ => rfl

/-- Types in which no array of fixed size is without elements have room where memory gives twice
their cells beside those that are in use. -/
theorem firstShortage_of_gives (ts : List AbiType) {inUse : Nat} (hfilled : allFilled ts = true)
    (h : Memory.Gives (inUse + 2 * cellsSum ts)) : firstShortage inUse ts = none := by
  cases ts with
  | nil => rfl
  | cons t rest =>
    rw [allFilled, Bool.and_eq_true] at hfilled
    rw [cellsSum] at h
    rw [firstShortage, Option.or_eq_none_iff]
    exact ⟨shortage_of_gives t hfilled.1 (h.mono (by omega)),
      firstShortage_of_gives rest hfilled.2 (h.mono (by omega))⟩

end

/-- A million rows of a million cells are granted each, but they are too many cells in all. -/
example : @shortage .usual 0 (.fixedArray (.fixedArray (.uint 256) 1000000) 1000000) =
    some .exhausted := by decide

end AbiType

end RollupInput.Abi
