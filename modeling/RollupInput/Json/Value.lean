import RollupInput.Json.Binary64

/-!
# JSON values

An object is a list of members, so that a value to be written keeps the order of its members and
may repeat a name. Reading gives objects whose members are sorted by name, each name once.
-/

namespace RollupInput

/-- A JSON number: an integer of 64 bits with or without sign, or a double. -/
inductive JsonNumber where
  /-- An integer. -/
  | int (value : Int)
  /-- A number with a fraction or an exponent, or an integer that no 64 bit word holds. -/
  | double (value : Json.Binary64)
  deriving DecidableEq, Repr

/-- The text of a number. -/
def JsonNumber.text : JsonNumber → List Char
  | .int (.ofNat n) => Text.decimal n
  | .int (.negSucc n) => '-' :: Text.decimal (n + 1)
  | .double x => x.text

/-- A JSON value. -/
inductive Json where
  /-- The value `null`. -/
  | null
  /-- A truth value. -/
  | bool (value : Bool)
  /-- A number. -/
  | num (value : JsonNumber)
  /-- A string. -/
  | str (value : String)
  /-- An array. -/
  | arr (items : List Json)
  /-- An object, as its members in order. -/
  | obj (members : List (String × Json))
  deriving Repr, BEq, Inhabited

namespace Json

/-- A natural number as a JSON value. -/
def nat (n : Nat) : Json := .num (.int n)

/-- The member of an object, if the value is one and has it. -/
def member? (v : Json) (name : String) : Option Json :=
  match v with
  | .obj members => members.lookup name
  | _ => none

/-- Put a member into a list that is sorted by name; an equal name gets the new value. -/
def insertMember (name : String) (v : Json) : List (String × Json) → List (String × Json)
  | [] => [(name, v)]
  | (key, w) :: rest =>
    if name = key then (name, v) :: rest
    else if name < key then (name, v) :: (key, w) :: rest
    else (key, w) :: insertMember name v rest

/-- An object whose members are the given ones where they are present. -/
def object (members : List (String × Option Json)) : Json :=
  .obj (members.filterMap fun m => m.2.map (m.1, ·))

end Json

end RollupInput
