import RollupInput.Text

/-!
# Hexadecimal text of bytes

Bytes are written with two lower case digits each, high half first. Reading accepts either case.
-/

namespace RollupInput.Text.Hex

/-- The lower case digit of a number below sixteen. -/
def digit (n : Nat) : Char := Nat.digitChar n

/-- The value of a hexadecimal digit of either case. -/
def value? (c : Char) : Option Nat :=
  if isDigit c then some (c.toNat - '0'.toNat)
  else if 'a' ≤ c && c ≤ 'f' then some (c.toNat - 'a'.toNat + 10)
  else if 'A' ≤ c && c ≤ 'F' then some (c.toNat - 'A'.toNat + 10)
  else none

/-- Two digits per byte, without a mark in front. -/
def digits : List UInt8 → List Char
  | [] => []
  | b :: bs => digit (b.toNat / 16) :: digit (b.toNat % 16) :: digits bs

/-- The bytes that a text of digit pairs writes. -/
def bytes? : List Char → Option (List UInt8)
  | [] => some []
  | [_] => none
  | h :: l :: cs =>
    match value? h, value? l, bytes? cs with
    | some a, some b, some bs => some (UInt8.ofNat (16 * a + b) :: bs)
    | _, _, _ => none

/-- The written form of a byte string: `0x` and its digits. -/
def ofBytes (bs : List UInt8) : String := String.ofList ('0' :: 'x' :: digits bs)

/-- The digits of a text, after one `0x` if it starts with that. -/
def unmarked (cs : List Char) : List Char := (after? ['0', 'x'] cs).getD cs

/-- The bytes of a hex text with or without `0x`. -/
def toBytes? (s : String) : Option (List UInt8) := bytes? (unmarked s.toList)

end RollupInput.Text.Hex
