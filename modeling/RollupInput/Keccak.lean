/-!
# Keccak-256

The hash behind function selectors and address checksums: the Keccak-f[1600] permutation in a
sponge of rate 136 bytes, with the padding bits `1 0* 1` and no domain bits, cut to 32 bytes.
The state is 25 lanes of 64 bits; lane `(x, y)` stands at index `x + 5 * y`.
-/

namespace RollupInput.Keccak

/-- The 25 lanes of the permutation's state. -/
abbrev Lanes := Array UInt64

/-- The lane at an index, zero outside the state. -/
def lane (s : Lanes) (i : Nat) : UInt64 := s.getD i 0

/-- The state whose lane at each index is given by `f`. -/
def lanes (f : Nat → UInt64) : Lanes := (Array.range 25).map f

/-- Rotate a lane to the left. -/
def rotateLeft (w : UInt64) (n : Nat) : UInt64 :=
  if n == 0 then w else (w <<< UInt64.ofNat n) ||| (w >>> UInt64.ofNat (64 - n))

/-- How far each lane is rotated by the step that moves lanes. -/
def rotations : List Nat :=
  [0, 1, 62, 28, 27, 36, 44, 6, 55, 20, 3, 10, 43, 25, 39, 41, 45, 15, 21, 8, 18, 2, 61, 56, 14]

/-- The constant that each round adds to lane zero. -/
def roundConstants : List UInt64 :=
  [0x0000000000000001, 0x0000000000008082, 0x800000000000808A, 0x8000000080008000,
   0x000000000000808B, 0x0000000080000001, 0x8000000080008081, 0x8000000000008009,
   0x000000000000008A, 0x0000000000000088, 0x0000000080008009, 0x000000008000000A,
   0x000000008000808B, 0x800000000000008B, 0x8000000000008089, 0x8000000000008003,
   0x8000000000008002, 0x8000000000000080, 0x000000000000800A, 0x800000008000000A,
   0x8000000080008081, 0x8000000000008080, 0x0000000080000001, 0x8000000080008008]

/-- Add to every lane the parities of two neighbouring columns. -/
def theta (s : Lanes) : Lanes :=
  let parity (x : Nat) : UInt64 :=
    lane s x ^^^ lane s (x + 5) ^^^ lane s (x + 10) ^^^ lane s (x + 15) ^^^ lane s (x + 20)
  let parities := (Array.range 5).map parity
  lanes fun i =>
    lane s i ^^^ lane parities ((i + 4) % 5) ^^^ rotateLeft (lane parities ((i + 1) % 5)) 1

/-- Rotate every lane by its own amount and move lane `(x, y)` to `(y, 2 * x + 3 * y)`. -/
def rhoPi (s : Lanes) : Lanes :=
  lanes fun i =>
    let source := (i % 5 + 3 * (i / 5)) % 5 + 5 * (i % 5)
    rotateLeft (lane s source) (rotations.getD source 0)

/-- Combine every lane with the two that follow it in its row. -/
def chi (s : Lanes) : Lanes :=
  lanes fun i =>
    let row := 5 * (i / 5)
    let next := lane s (row + (i + 1) % 5)
    lane s i ^^^ ((next ^^^ 0xFFFFFFFFFFFFFFFF) &&& lane s (row + (i + 2) % 5))

/-- One round with its constant. -/
def round (s : Lanes) (constant : UInt64) : Lanes :=
  let mixed := chi (rhoPi (theta s))
  lanes fun i => if i == 0 then lane mixed 0 ^^^ constant else lane mixed i

/-- The permutation of the state. -/
def permute (s : Lanes) : Lanes := roundConstants.foldl round s

/-- The number of message bytes per permutation. -/
def rate : Nat := 136

/-- The message with the padding that fills its last block. -/
def padded (message : List UInt8) : List UInt8 :=
  let gap := rate - message.length % rate
  if gap == 1 then message ++ [0x81]
  else message ++ (0x01 :: List.replicate (gap - 2) 0) ++ [0x80]

/-- The lane that eight bytes write, least byte first. -/
def laneOfBytes (bs : List UInt8) : UInt64 :=
  bs.foldr (fun b acc => (acc <<< 8) ||| b.toUInt64) 0

/-- The eight bytes of a lane, least byte first. -/
def laneBytes (w : UInt64) : List UInt8 :=
  (List.range 8).map fun i => (w >>> UInt64.ofNat (8 * i)).toUInt8

/-- Add one block of the message to the state and permute it. -/
def absorb (s : Lanes) (block : List UInt8) : Lanes :=
  permute (lanes fun i =>
    if i < rate / 8 then lane s i ^^^ laneOfBytes ((block.drop (8 * i)).take 8) else lane s i)

/-- Absorb `count` blocks. -/
def absorbAll : Nat → Lanes → List UInt8 → Lanes
  | 0, s, _ => s
  | count + 1, s, message => absorbAll count (absorb s (message.take rate)) (message.drop rate)

/-- The 32 byte hash of a message. -/
def hash (message : List UInt8) : List UInt8 :=
  let blocks := padded message
  let s := absorbAll (blocks.length / rate) (lanes fun _ => 0) blocks
  ((List.range 4).map fun i => laneBytes (lane s i)).flatten

end RollupInput.Keccak
