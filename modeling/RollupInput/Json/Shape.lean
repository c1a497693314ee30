import RollupInput.Json.Value

/-!
# Reading typed data out of JSON values

A value is read by a function that either gives the data or says where the value has the wrong
shape. Records are objects, of which unknown members are ignored, or arrays that hold the fields
in declaration order and may leave off fields at the end. A field that may be absent may also be
`null`; no other field may.
-/

namespace RollupInput.Json

/-- Where and how a value differs from what is asked for. -/
inductive ShapeError where
  /-- The value is of another kind, or out of range. -/
  | expected (what : String)
  /-- A field without a default is absent. -/
  | missing (name : String)
  /-- The difference lies in a field. -/
  | inField (name : String) (cause : ShapeError)
  /-- The difference lies in an item of an array. -/
  | inItem (index : Nat) (cause : ShapeError)
  deriving DecidableEq, Repr

/-- The wording of a difference, from the outside in. -/
def ShapeError.message : ShapeError → String
  | .expected what => "expected " ++ what
  | .missing name => "missing field " ++ name
  | .inField name cause => name ++ ": " ++ cause.message
  | .inItem index cause => toString index ++ ": " ++ cause.message

/-- Data of type `α`, or the difference that keeps a value from giving it. -/
abbrev Shaped (α : Type) : Type := Except ShapeError α

/-- A string. -/
def asString : Json → Shaped String
  | .str s => .ok s
  | _ => .error (.expected "a string")

/-- A truth value. -/
def asBool : Json → Shaped Bool
  | .bool b => .ok b
  | _ => .error (.expected "a boolean")

/-- An integer from zero up to, and not including, a limit. -/
def asNatBelow (limit : Nat) : Json → Shaped Nat
  | .num (.int (.ofNat n)) => if n < limit then .ok n else .error (.expected "a smaller integer")
  | _ => .error (.expected "an integer")

/-- Read every item of a list, the first at the given index. -/
def readItemsFrom {α : Type} (read : Json → Shaped α) (index : Nat) : List Json → Shaped (List α)
  | [] => .ok []
  | v :: rest =>
    match read v with
    | .error e => .error (.inItem index e)
    | .ok a => (readItemsFrom read (index + 1) rest).map (a :: ·)

/-- An array, each item read by `read`. -/
def asList {α : Type} (read : Json → Shaped α) : Json → Shaped (List α)
  | .arr items => readItemsFrom read 0 items
  | _ => .error (.expected "an array")

/-- Whether a value is `null`. -/
def isNull : Json → Bool
  | .null => true
  | _ => false

/-- Whether a value is `null` or an object without members. -/
def isHollow : Json → Bool
  | .null | .obj [] => true
  | _ => false

/-- One of finitely many named choices: its name, or an object of that one member, whose value
has to stand for nothing. -/
def asChoice {α : Type} (isNothing : Json → Bool) (choices : List (String × α)) (v : Json) :
    Shaped α :=
  let name? : Option String :=
    match v with
    | .str s => some s
    | .obj [(name, w)] => if isNothing w then some name else none
    | _ => none
  match name?.bind (fun name => choices.lookup name) with
  | some a => .ok a
  | none => .error (.expected (Text.joinWith ", " (choices.map (·.1))))

/-- The fields of a record with the given field names. -/
def fields (names : List String) : Json → Shaped (List (String × Json))
  | .obj members => .ok members
  | .arr items =>
    if items.length ≤ names.length then .ok (names.zip items)
    else .error (.expected "fewer items")
  | _ => .error (.expected "an object")

/-- The fields of a record that cannot be given as an array. -/
def objectFields : Json → Shaped (List (String × Json))
  | .obj members => .ok members
  | _ => .error (.expected "an object")

/-- A field that has to be there. -/
def required {α : Type} (name : String) (read : Json → Shaped α) (members : List (String × Json)) :
    Shaped α :=
  match members.lookup name with
  | none => .error (.missing name)
  | some v => (read v).mapError (.inField name)

/-- A field with a default for its absence. -/
def defaulted {α : Type} (name : String) (default : α) (read : Json → Shaped α)
    (members : List (String × Json)) : Shaped α :=
  match members.lookup name with
  | none => .ok default
  | some v => (read v).mapError (.inField name)

/-- A field that may be absent or `null`. -/
def optional {α : Type} (name : String) (read : Json → Shaped α) (members : List (String × Json)) :
    Shaped (Option α) :=
  match members.lookup name with
  | none => .ok none
  | some .null => .ok none
  | some v => ((read v).map some).mapError (.inField name)

mutual

/-- How many levels of arrays and objects a value has. -/
def height : Json → Nat
  | .arr items => heightItems items + 1
  | .obj members => heightMembers members + 1
  | _ => 0

/-- The greatest height among the items of an array. -/
def heightItems : List Json → Nat
  | [] => 0
  | v :: rest => max (height v) (heightItems rest)

/-- The greatest height among the members of an object. -/
def heightMembers : List (String × Json) → Nat
  | [] => 0
  | (_, v) :: rest => max (height v) (heightMembers rest)

end

end RollupInput.Json
