import RollupInput.Keccak

/-!
# Hashing on lists

The hash keeps its state in arrays, which a program reads fast and a proof reduces slowly. On the lists
of their lanes every step is the same, and the kernel evaluates it by recursion on lists alone. The
equations go from the lanes through the steps of a round to the whole hash.
-/

namespace RollupInput.Keccak

/-- The lane at an index of a list, zero behind its end. -/
def laneOf : List UInt64 → Nat → UInt64
  | [], _ => 0
  | w :: _, 0 => w
  | _ :: s, i + 1 => laneOf s i

/-- The list whose lane at each index is given by `f`. -/
def lanesOf (f : Nat → UInt64) : List UInt64 := (List.range 25).map f

/-- The step that adds parities of columns, on a list. -/
def thetaOf (s : List UInt64) : List UInt64 :=
  let parity (x : Nat) : UInt64 :=
    laneOf s x ^^^ laneOf s (x + 5) ^^^ laneOf s (x + 10) ^^^ laneOf s (x + 15) ^^^ laneOf s (x + 20)
  let parities := (List.range 5).map parity
  lanesOf fun i =>
    laneOf s i ^^^ laneOf parities ((i + 4) % 5) ^^^ rotateLeft (laneOf parities ((i + 1) % 5)) 1

/-- The step that rotates and moves lanes, on a list. -/
def rhoPiOf (s : List UInt64) : List UInt64 :=
  lanesOf fun i =>
    let source := (i % 5 + 3 * (i / 5)) % 5 + 5 * (i % 5)
    rotateLeft (laneOf s source) (rotations.getD source 0)

/-- The step that combines lanes of a row, on a list. -/
def chiOf (s : List UInt64) : List UInt64 :=
  lanesOf fun i =>
    let row := 5 * (i / 5)
    let next := laneOf s (row + (i + 1) % 5)
    laneOf s i ^^^ ((next ^^^ 0xFFFFFFFFFFFFFFFF) &&& laneOf s (row + (i + 2) % 5))

/-- One round, on a list. -/
def roundOf (s : List UInt64) (constant : UInt64) : List UInt64 :=
  let mixed := chiOf (rhoPiOf (thetaOf s))
  lanesOf fun i => if i == 0 then laneOf mixed 0 ^^^ constant else laneOf mixed i

/-- Add one block of the message to a list and permute it. -/
def absorbOf (s : List UInt64) (block : List UInt8) : List UInt64 :=
  roundConstants.foldl roundOf (lanesOf fun i =>
    if i < rate / 8 then laneOf s i ^^^ laneOfBytes ((block.drop (8 * i)).take 8) else laneOf s i)

/-- Absorb `count` blocks on a list. -/
def absorbAllOf : Nat → List UInt64 → List UInt8 → List UInt64
  | 0, s, _ => s
  | count + 1, s, message => absorbAllOf count (absorbOf s (message.take rate)) (message.drop rate)

/-- The hash of a message, on lists. -/
def hashOf (message : List UInt8) : List UInt8 :=
  let blocks := padded message
  let s := absorbAllOf (blocks.length / rate) (lanesOf fun _ => 0) blocks
  ((List.range 4).map fun i => laneBytes (laneOf s i)).flatten

/-- A lane of an array is that of its list. -/
theorem lane_toArray (s : List UInt64) (i : Nat) : lane s.toArray i = laneOf s i := by
  have hget : s.getD i 0 = laneOf s i := by
    fun_induction laneOf s i with
    | case1 => rfl
    | case2 => rfl
    | case3 w s i ih => rw [List.getD_cons_succ, ih]
  rw [← hget]
  simp [lane]

/-- An array made from its indices is made from a list of them. -/
theorem map_range_eq (n : Nat) (f : Nat → UInt64) :
    (Array.range n).map f = ((List.range n).map f).toArray := by
  rw [← List.map_toArray, List.toArray_range]

/-- The array of given lanes has their list. -/
theorem lanes_eq (f : Nat → UInt64) : lanes f = (lanesOf f).toArray := map_range_eq 25 f

/-- The parities are added to an array as to its list. -/
theorem theta_toArray (s : List UInt64) : theta s.toArray = (thetaOf s).toArray := by
  simp only [theta, thetaOf, map_range_eq, lanes_eq, lane_toArray]

/-- The lanes of an array are moved as those of its list. -/
theorem rhoPi_toArray (s : List UInt64) : rhoPi s.toArray = (rhoPiOf s).toArray := by
  simp only [rhoPi, rhoPiOf, lanes_eq, lane_toArray]

/-- The lanes of an array are combined as those of its list. -/
theorem chi_toArray (s : List UInt64) : chi s.toArray = (chiOf s).toArray := by
  simp only [chi, chiOf, lanes_eq, lane_toArray]

/-- One round of an array is that of its list. -/
theorem round_toArray (s : List UInt64) (constant : UInt64) :
    round s.toArray constant = (roundOf s constant).toArray := by
  simp only [round, roundOf, theta_toArray, rhoPi_toArray, chi_toArray, lanes_eq, lane_toArray]

/-- The permutation of an array is the rounds of its list. -/
theorem permute_toArray (s : List UInt64) :
    permute s.toArray = (roundConstants.foldl roundOf s).toArray := by
  unfold permute
  induction roundConstants generalizing s with
  | nil => rfl
  | cons constant constants ih => rw [List.foldl_cons, round_toArray, ih, List.foldl_cons]

/-- A block is absorbed into an array as into its list. -/
theorem absorb_toArray (s : List UInt64) (block : List UInt8) :
    absorb s.toArray block = (absorbOf s block).toArray := by
  simp only [absorb, absorbOf, lanes_eq, lane_toArray, permute_toArray]

/-- Blocks are absorbed into an array as into its list. -/
theorem absorbAll_toArray (count : Nat) (s : List UInt64) (message : List UInt8) :
    absorbAll count s.toArray message = (absorbAllOf count s message).toArray := by
  induction count generalizing s message with
  | zero => rfl
  | succ count ih => rw [absorbAll, absorb_toArray, ih, absorbAllOf]

/-- The hash of a message is the one on lists. -/
theorem hash_eq_hashOf (message : List UInt8) : hash message = hashOf message := by
  simp only [hash, hashOf, lanes_eq, absorbAll_toArray, lane_toArray]

end RollupInput.Keccak
