import RollupInput.DecodeFault
import RollupInput.Text.Hex
import RollupInput.Text.Utf8

/-!
# Payloads

A payload is written as hexadecimal digits of either case, with or without `0x` or `0X` in front
and with blanks around. Parts of it are cut out by byte offsets.
-/

namespace RollupInput.Payload

/-- Why a text is not hexadecimal. -/
inductive HexFault where
  /-- The digits do not come in pairs. -/
  | oddLength
  /-- A byte of the text's UTF-8 form is no digit. -/
  | badDigit (byte : UInt8) (index : Nat)
  deriving DecidableEq, Repr

/-- A byte as a character of Latin-1 between single quotes; what cannot be seen is escaped. -/
def quoteByte (b : UInt8) : List Char :=
  let n := b.toNat
  let c := Char.ofNat n
  let hidden := n < 32 || (127 ≤ n && n ≤ 160) || n == 173
  let body : List Char :=
    if n == 0 then ['\\', '0']
    else if c == '\t' then ['\\', 't']
    else if c == '\n' then ['\\', 'n']
    else if c == '\r' then ['\\', 'r']
    else if c == '\'' then ['\\', '\'']
    else if c == '\\' then ['\\', '\\']
    else if hidden then ['\\', 'u', '\x7b'] ++ Nat.toDigits 16 n ++ ['\x7d']
    else [c]
  '\'' :: (body ++ ['\''])

/-- The wording of a fault. -/
def HexFault.message : HexFault → String
  | .oddLength => "Odd number of digits"
  | .badDigit byte index =>
    "Invalid character " ++ String.ofList (quoteByte byte) ++ s!" at position {index}"

/-- The digits of a payload: the text without blanks around it and without one mark in front. -/
def digits (cs : List Char) : List Char :=
  let trimmed := Text.trim cs
  ((Text.after? ['0', 'x'] trimmed).or (Text.after? ['0', 'X'] trimmed)).getD trimmed

/-- Whether a byte is the code of a hexadecimal digit. -/
def isDigitByte (b : UInt8) : Bool := b.toNat < 128 && Text.isHexDigit (Char.ofNat b.toNat)

/-- The first byte that is no digit, with its index counted from `index`. -/
def firstBad? (index : Nat) : List UInt8 → Option (UInt8 × Nat)
  | [] => none
  | b :: bs => if isDigitByte b then firstBad? (index + 1) bs else some (b, index)

/-- The bytes that digits write, or what is wrong with them. An odd number of bytes is reported
before any byte that is no digit. -/
def ofDigits (cs : List Char) : Except HexFault (List UInt8) :=
  let encoded := Text.Utf8.encode cs
  if encoded.length % 2 == 1 then .error .oddLength
  else
    match firstBad? 0 encoded with
    | some (b, index) => .error (.badDigit b index)
    | none => .ok ((Text.Hex.bytes? cs).getD [])

/-- Read a payload. -/
def parse (s : String) : Except DecodeFault (List UInt8) :=
  (ofDigits (digits s.toList)).mapError fun e => .malformedPayload e.message

/-- The bytes from `start` up to, and not including, `stop`, or up to the end. A start behind the
last byte is out of bounds unless it is zero, and so is a stop behind the end or before the
start. -/
def extract (payload : List UInt8) (start : Nat) (stop : Option Nat) :
    Except DecodeFault (List UInt8) :=
  let size := payload.length
  if 0 < start && size ≤ start then .error (.outOfBounds .start start size)
  else
    match stop with
    | none => .ok (payload.drop start)
    | some stop =>
      if size < stop || stop < start then .error (.outOfBounds .stop stop size)
      else .ok ((payload.take stop).drop start)

end RollupInput.Payload
