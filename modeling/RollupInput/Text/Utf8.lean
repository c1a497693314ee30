import RollupInput.Text

/-!
# UTF-8

Encoding of characters as bytes, and two readings of bytes: a strict one, and one that never fails.
Every maximal part of a byte string that starts like a character but is cut short or continued
wrongly, and every byte that starts no character, is one malformed part, which the second reading
takes as a replacement character.
-/

namespace RollupInput.Text.Utf8

/-- The bytes of one character, one to four of them. -/
def encodeChar (c : Char) : List UInt8 :=
  let n := c.toNat
  if n < 0x80 then [UInt8.ofNat n]
  else if n < 0x800 then [UInt8.ofNat (0xC0 + n / 64), UInt8.ofNat (0x80 + n % 64)]
  else if n < 0x10000 then
    [UInt8.ofNat (0xE0 + n / 4096), UInt8.ofNat (0x80 + n / 64 % 64), UInt8.ofNat (0x80 + n % 64)]
  else
    [UInt8.ofNat (0xF0 + n / 262144), UInt8.ofNat (0x80 + n / 4096 % 64),
      UInt8.ofNat (0x80 + n / 64 % 64), UInt8.ofNat (0x80 + n % 64)]

/-- The bytes of a text. -/
def encode (cs : List Char) : List UInt8 := cs.flatMap encodeChar

/-- The number of bytes of a text. -/
def size (cs : List Char) : Nat := (encode cs).length

/-- What is read in place of bytes that encode no character. -/
def replacement : Char := Char.ofNat 0xFFFD

/-- A character that has begun and still lacks bytes. -/
structure Pending where
  /-- How many bytes are missing after the next one. -/
  more : Nat
  /-- The least value that the next byte may have. -/
  low : Nat
  /-- The greatest value that the next byte may have. -/
  high : Nat
  /-- The bits read so far. -/
  bits : Nat
  deriving Repr, DecidableEq

/-- What a first byte begins. -/
inductive Start where
  /-- A character of one byte. -/
  | whole (c : Char)
  /-- A character of several bytes. -/
  | opens (p : Pending)
  /-- No character. -/
  | nothing
  deriving Repr, DecidableEq

/-- What the byte `b` begins. The bounds on the second byte keep out overlong forms, surrogates
and values above U+10FFFF. -/
def start (b : UInt8) : Start :=
  let n := b.toNat
  if n < 0x80 then .whole (Char.ofNat n)
  else if n < 0xC2 then .nothing
  else if n < 0xE0 then .opens ⟨0, 0x80, 0xBF, n - 0xC0⟩
  else if n == 0xE0 then .opens ⟨1, 0xA0, 0xBF, n - 0xE0⟩
  else if n == 0xED then .opens ⟨1, 0x80, 0x9F, n - 0xE0⟩
  else if n < 0xF0 then .opens ⟨1, 0x80, 0xBF, n - 0xE0⟩
  else if n == 0xF0 then .opens ⟨2, 0x90, 0xBF, n - 0xF0⟩
  else if n < 0xF4 then .opens ⟨2, 0x80, 0xBF, n - 0xF0⟩
  else if n == 0xF4 then .opens ⟨2, 0x80, 0x8F, n - 0xF0⟩
  else .nothing

/-- Read on, with the character that has begun, if any: the characters in order, and nothing in
place of each malformed part. -/
def decodeFrom : Option Pending → List UInt8 → List (Option Char)
  | none, [] => []
  | some _, [] => [none]
  | none, b :: bs =>
    match start b with
    | .whole c => some c :: decodeFrom none bs
    | .opens p => decodeFrom (some p) bs
    | .nothing => none :: decodeFrom none bs
  | some p, b :: bs =>
    if p.low ≤ b.toNat && b.toNat ≤ p.high then
      let bits := p.bits * 64 + b.toNat % 64
      match p.more with
      | 0 => some (Char.ofNat bits) :: decodeFrom none bs
      | more + 1 => decodeFrom (some ⟨more, 0x80, 0xBF, bits⟩) bs
    else
      match start b with
      | .whole c => none :: some c :: decodeFrom none bs
      | .opens q => none :: decodeFrom (some q) bs
      | .nothing => none :: none :: decodeFrom none bs

/-- The characters and malformed parts of a byte string. -/
def decode (bs : List UInt8) : List (Option Char) := decodeFrom none bs

/-- The text that bytes encode, if they are UTF-8 throughout. -/
def decodeStrict? (bs : List UInt8) : Option (List Char) := (decode bs).mapM id

/-- Read bytes as text, with a replacement character for what is not UTF-8. -/
def decodeLossy (bs : List UInt8) : List Char := (decode bs).map fun c => c.getD replacement

end RollupInput.Text.Utf8
