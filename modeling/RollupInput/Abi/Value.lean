import RollupInput.Json.Writer
import RollupInput.Keccak
import RollupInput.Text.Utf8

/-!
# Decoded values

The values that a decode yields and their two renderings: a JSON value, in which integers are
decimal strings, addresses checksummed strings and byte strings hexadecimal, and a display text,
which is the content of that string for scalars and the compact JSON text for all else.
-/

namespace RollupInput.Abi

/-- The text of an address of any number of bytes: hexadecimal digits after `0x`, of which a
letter is upper case where the hash of the lower case digits has a digit of eight or more. -/
def checksummed (address : List UInt8) : String :=
  let digits := Text.Hex.digits address
  let hash := Text.Hex.digits (Keccak.hash (Text.Utf8.encode digits))
  let mark (c h : Char) : Char :=
    if 8 ≤ (Text.Hex.value? h).getD 0 then Text.upperAscii c else c
  String.ofList ('0' :: 'x' :: List.zipWith mark digits hash)

/-- A decoded value. -/
inductive Value where
  /-- A truth value. -/
  | bool (value : Bool)
  /-- An integer. -/
  | int (value : Int)
  /-- A natural number. -/
  | uint (value : Nat)
  /-- The twenty bytes of an account. -/
  | address (value : List UInt8)
  /-- A byte string. -/
  | bytes (value : List UInt8)
  /-- A text. -/
  | string (value : String)
  /-- The elements of an array. -/
  | array (items : List Value)
  /-- The fields of a tuple of which not all have names. -/
  | tuple (items : List Value)
  /-- The fields of a tuple with their names, in order. -/
  | struct (fields : List (String × Value))
  deriving Repr, BEq, Inhabited

namespace Value

/-- The decimal text of an integer. -/
def intText (i : Int) : String := String.ofList (JsonNumber.text (.int i))

mutual

/-- The JSON rendering. -/
def json : Value → Json
  | .bool b => .bool b
  | .int i => .str (intText i)
  | .uint n => .str (intText n)
  | .address bs => .str (checksummed bs)
  | .bytes bs => .str (Text.Hex.ofBytes bs)
  | .string s => .str s
  | .array items => .arr (jsonItems items)
  | .tuple items => .arr (jsonItems items)
  | .struct fields => .obj (jsonFields fields)

/-- The JSON renderings of a list of values. -/
def jsonItems : List Value → List Json
  | [] => []
  | v :: rest => json v :: jsonItems rest

/-- The JSON members of named values. -/
def jsonFields : List (String × Value) → List (String × Json)
  | [] => []
  | (name, v) :: rest => (name, json v) :: jsonFields rest

end

/-- The display text. -/
def display (v : Value) : String :=
  match v with
  | .bool b => if b then "true" else "false"
  | .int i => intText i
  | .uint n => intText n
  | .address bs => checksummed bs
  | .bytes bs => Text.Hex.ofBytes bs
  | .string s => s
  | .array _ | .tuple _ | .struct _ => v.json.text

/-- The bytes of a byte string value. -/
def asBytes? : Value → Option (List UInt8)
  | .bytes bs => some bs
  | _ => none

/-- The first field of a given name. -/
def field? (name : String) : Value → Option Value
  | .struct fields => fields.lookup name
  | _ => none

end Value

end RollupInput.Abi
