import RollupInput.Proofs.Abi.Word

/-!
# The canonical parameter encoding

The encoding that contracts use for the values of given types. A sequence is laid out as the
places of its members, one after the other, and then the members of varying size, to which words
in their places lead; these offsets count from the start of the sequence. An array of any size has
its length in front. The encoding is specification only: nothing that decodes calls it.
-/

namespace RollupInput.Abi

/-- A member of a sequence: its own encoding, and whether that stands behind an offset. -/
structure Part where
  /-- Whether the type of the member counts as dynamic. -/
  dynamic : Bool
  /-- The encoding of the member. -/
  bytes : List UInt8

namespace Part

/-- The number of bytes of the place of a member. -/
def placeBytes (p : Part) : Nat := if p.dynamic then wordBytes else p.bytes.length

/-- The number of bytes of a member behind the places. -/
def tailBytes (p : Part) : Nat := if p.dynamic then p.bytes.length else 0

end Part

/-- The number of bytes of the places of a sequence. -/
def headSize : List Part → Nat
  | [] => 0
  | p :: rest => p.placeBytes + headSize rest

/-- The number of bytes behind the places of a sequence. -/
def tailSize : List Part → Nat
  | [] => 0
  | p :: rest => p.tailBytes + tailSize rest

/-- The places of a sequence, the first dynamic member of which goes to a given offset. -/
def heads : Nat → List Part → List UInt8
  | _, [] => []
  | offset, p :: rest =>
    if p.dynamic then wordOfNat offset ++ heads (offset + p.bytes.length) rest
    else p.bytes ++ heads offset rest

/-- The dynamic members of a sequence. -/
def tails : List Part → List UInt8
  | [] => []
  | p :: rest => if p.dynamic then p.bytes ++ tails rest else tails rest

/-- The layout of a sequence: its places, then its dynamic members in order. -/
def layOut (parts : List Part) : List UInt8 := heads (headSize parts) parts ++ tails parts

mutual

/-- The encoding of a value of a type. -/
def encode : AbiType → Value → List UInt8
  | .bool, .bool b => wordOfNat (if b then 1 else 0)
  | .int _, .int i => wordOfInt i
  | .uint _, .uint n => wordOfNat n
  | .address, .address bs => flushRight bs
  | .fixedBytes _, .bytes bs => flushLeft bs
  | .function, .bytes bs => flushLeft bs
  | .bytes, .bytes bs => wordOfNat bs.length ++ padded bs
  | .string, .string s =>
    let bs := Text.Utf8.encode s.toList
    wordOfNat bs.length ++ padded bs
  | .array element, .array vs =>
    wordOfNat vs.length ++ layOut (vs.map fun v => ⟨element.isDynamic, encode element v⟩)
  | .fixedArray element _, .array vs =>
    layOut (vs.map fun v => ⟨element.isDynamic, encode element v⟩)
  | .tuple fields, .tuple vs => layOut (partsOf fields vs)
  | _, _ => []

/-- The members of a sequence of values of the types of a list. -/
def partsOf : List AbiType → List Value → List Part
  | t :: ts, v :: vs => ⟨t.isDynamic, encode t v⟩ :: partsOf ts vs
  | _, _ => []

end

/-- The encoding of values of the types of a parameter list. -/
def encodeParams (types : List AbiType) (vs : List Value) : List UInt8 := layOut (partsOf types vs)

mutual

/-- Whether a value without names is one of a type. An integer of any width may be every number of
a word, because every integer is given a whole word. -/
def HasType : AbiType → Value → Prop
  | .bool, .bool _ => True
  | .int _, .int i => -((Nat.pow 2 255 : Nat) : Int) ≤ i ∧ i < (Nat.pow 2 255 : Nat)
  | .uint _, .uint n => n < Nat.pow 2 256
  | .address, .address bs => bs.length = 20
  | .fixedBytes size, .bytes bs => bs.length = size ∧ size ≤ wordBytes
  | .function, .bytes bs => bs.length = 24
  | .bytes, .bytes _ => True
  | .string, .string _ => True
  | .array element, .array vs => ∀ v ∈ vs, HasType element v
  | .fixedArray element size, .array vs => vs.length = size ∧ ∀ v ∈ vs, HasType element v
  | .tuple fields, .tuple vs => HaveTypes fields vs
  | _, _ => False

/-- Whether values without names are of the types of a list, one for one. -/
def HaveTypes : List AbiType → List Value → Prop
  | [], [] => True
  | t :: ts, v :: vs => HasType t v ∧ HaveTypes ts vs
  | _, _ => False

end

/-- The places of a sequence take as many bytes as counted. -/
@[simp] theorem length_heads (offset : Nat) (parts : List Part) :
    (heads offset parts).length = headSize parts := by
  induction parts generalizing offset with
  | nil => rfl
  | cons p rest ih =>
    rw [heads, headSize]
    unfold Part.placeBytes
    split
    · rw [List.length_append, length_wordOfNat, ih]
    · rw [List.length_append, ih]

/-- The dynamic members of a sequence take as many bytes as counted. -/
@[simp] theorem length_tails (parts : List Part) : (tails parts).length = tailSize parts := by
  induction parts with
  | nil => rfl
  | cons p rest ih =>
    rw [tails, tailSize]
    unfold Part.tailBytes
    split
    · rw [List.length_append, ih]
    · rw [ih, Nat.zero_add]

/-- A layout is made of the places and of what stands behind them. -/
theorem length_layOut (parts : List Part) : (layOut parts).length = headSize parts + tailSize parts := by
  rw [layOut, List.length_append, length_heads, length_tails]

end RollupInput.Abi
