import RollupInput.Abi.Type

/-!
# Room for values

Before the first word of an encoding is read, room is made for the values of its types: one cell
for each element of an array of fixed size. Every element is a copy of one that is prepared first,
with all cells that this one has taken, so the cells of arrays inside each other multiply. The
elements of the other arrays are prepared once, before their number is known, so their own arrays of
fixed size take room even where the encoding holds no such element. Whether there is room enough is
therefore a matter of the types and of the memory of the machine, and not of the data.

While the encoding is read, its arrays of any size and its byte strings and texts take room
again, for as much as they promise. There is a limit on that in all, because offsets may lead many
values to the same bytes.
-/

namespace RollupInput.Abi

/-- What the memory of a machine gives. Nothing but these laws is known of it. -/
class Memory where
  /-- Whether a block of a number of bytes is granted while a number of cells are in use. -/
  grants (inUse bytes : Nat) : Bool
  /-- Whether a number of cells can be in use at once, with the room that reading takes and the values
  that are made of them. -/
  holds (cells : Nat) : Bool
  /-- Where a block is granted, a smaller one is, and it is while fewer cells are in use. -/
  grants_of_le {inUse more bytes larger : Nat} (huse : inUse ≤ more) (hbytes : bytes ≤ larger)
    (h : grants more larger = true) : grants inUse bytes = true
  /-- Where a number of cells can be in use, fewer can. -/
  holds_of_le {cells more : Nat} (hle : cells ≤ more) (h : holds more = true) : holds cells = true

/-- Why there is no room for an array of fixed size. -/
inductive Shortage where
  /-- Its cells have more bytes than an address can count. -/
  | unaddressable
  /-- Its cells have more bytes than memory grants at once. -/
  | refused
  /-- With the copies of its element, more cells are in use than memory holds. The machine then
  stops the program, which gives no answer; this shortage stands for that. -/
  | exhausted
  deriving DecidableEq, Repr

/-- The wording of a shortage. -/
def Shortage.message : Shortage → String
  | .unaddressable =>
    "memory allocation failed because the computed capacity exceeded the collection's maximum"
  | .refused => "memory allocation failed because the memory allocator returned an error"
  | .exhausted => "memory allocation failed"

/-- The number of bytes of the cell of an element. -/
def cellBytes : Nat := 40

/-- The number of bytes that no addressable block reaches. -/
def addressableBytes : Nat := Nat.pow 2 63

/-- The number of bytes that values may take while an encoding is read, one gibibyte. -/
def maxRoom : Nat := Nat.pow 2 30

/-- Memory of a number of bytes, which grants any block that is no larger, and holds the cells that
fit in. -/
@[reducible] def Memory.ofBytes (bytes : Nat) : Memory where
  grants _ block := block ≤ bytes
  holds cells := cells * cellBytes ≤ bytes
  grants_of_le _ hbytes h := by
    rw [decide_eq_true_eq] at h ⊢
    exact Nat.le_trans hbytes h
  holds_of_le hle h := by
    rw [decide_eq_true_eq] at h ⊢
    exact Nat.le_trans (Nat.mul_le_mul_right _ hle) h

/-- A memory of 32 gibibytes, in which commands are run and samples are decoded. No result about all
types or all data is about this memory. -/
@[reducible] def Memory.usual : Memory := .ofBytes (Nat.pow 2 35)

/-- The shortage that a row of `size` cells runs into, if any, where `inUse` cells are in use before
it is made and it is filled with copies that take `each` cells. No elements ask for no row. -/
def rowShortage [Memory] (inUse size each : Nat) : Option Shortage :=
  if size = 0 then none
  else if addressableBytes ≤ size * cellBytes then some .unaddressable
  else if !Memory.grants inUse (size * cellBytes) then some .refused
  else if !Memory.holds (inUse + size * each) then some .exhausted
  else none

namespace AbiType

mutual

/-- The number of cells that a value of a type takes as an element: its own, and those of the
parts that its type fixes. The one element that an array of any size prepares is such a part. -/
def cells : AbiType → Nat
  | .array element => 1 + cells element
  | .fixedArray element size => 1 + size * cells element
  | .tuple fields => 1 + cellsSum fields
  | _ => 1

/-- The sum of the numbers of cells of the types. -/
def cellsSum : List AbiType → Nat
  | [] => 0
  | t :: rest => cells t + cellsSum rest

end

mutual

/-- The first shortage met when room is made for a value of a type while some cells are in use. An
element is prepared before the row of cells that takes its copies, also in an array of no elements,
and stays in use until the row is full. -/
def shortage [Memory] (inUse : Nat) : AbiType → Option Shortage
  | .array element => shortage inUse element
  | .fixedArray element size =>
    (shortage inUse element).or (rowShortage (inUse + cells element) size (cells element))
  | .tuple fields => firstShortage inUse fields
  | _ => none

/-- The first shortage met when room is made for values of the types of a list in order, while some
cells are in use. -/
def firstShortage [Memory] (inUse : Nat) : List AbiType → Option Shortage
  | [] => none
  | t :: rest => (shortage inUse t).or (firstShortage (inUse + cells t) rest)

end

end AbiType

end RollupInput.Abi
