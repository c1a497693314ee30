import RollupInput.Contract.Interface
import RollupInput.Json.Shape

/-!
# Written interfaces

An interface is written as an array of objects, each with its kind under `type`. Events and errors
may be arrays as well, of their kind and then all their fields in order. Parameters name their
types by specifiers, so a parameter without fields has to have a well-formed one; a parameter with
fields has to start with `tuple`. The older members `payable` and `constant` stand in for an absent
mutability.
-/

namespace RollupInput.Contract

/-- The written names of the mutabilities. -/
def Mutability.choices : List (String × Mutability) :=
  [("pure", .pure), ("view", .view), ("nonpayable", .nonpayable), ("payable", .payable)]

/-- The written name. -/
def Mutability.text : Mutability → String
  | .pure => "pure"
  | .view => "view"
  | .nonpayable => "nonpayable"
  | .payable => "payable"

/-- Read the mutability of an item. -/
def Mutability.ofMembers (members : List (String × Json)) : Json.Shaped Mutability := do
  let written ← Json.optional "stateMutability" (Json.asChoice Json.isHollow Mutability.choices)
    members
  let payable ← Json.optional "payable" Json.asBool members
  let constant ← Json.optional "constant" Json.asBool members
  match written, payable.getD false, constant.getD false with
  | some m, _, _ => return m
  | none, true, true => throw (.expected "an item that is not both payable and constant")
  | none, true, false => return .payable
  | none, false, true => return .view
  | none, false, false => return .nonpayable

/-- A name, which is empty or an identifier. -/
def asName (v : Json) : Json.Shaped String := do
  let name ← v.asString
  if name.isEmpty || Text.isIdentifier name.toList then return name
  else throw (.expected "an identifier")

/-- Whether the written type of a parameter goes with its having fields or not. -/
def admitsType (type : String) (hasFields : Bool) : Bool :=
  if hasFields then "tuple".toList.isPrefixOf type.toList
  else (Abi.TypeText.parse? type.toList).isSome

/-- The names of the members of a parameter. -/
def argumentFields : List String := ["name", "type", "indexed", "internalType", "components"]

/-- What is wrong with a parameter that is indexed where none can be. -/
def notIndexed : Json.ShapeError := .expected "a parameter that is not indexed"

/-- Read a parameter, nested at most `levels` deep, and whether it is indexed, if it says so. -/
def readArgument : Nat → Json → Json.Shaped (Argument × Option Bool)
  | 0, _ => .error (.expected "a parameter")
  | levels + 1, v => do
    let members ← v.fields argumentFields
    let name ← Json.defaulted "name" "" asName members
    let type ← Json.required "type" Json.asString members
    let indexed ← Json.optional "indexed" Json.asBool members
    let internalType ← Json.optional "internalType" Json.asString members
    let component (w : Json) : Json.Shaped Argument := do
      let (argument, indexed) ← readArgument levels w
      if indexed.isSome then throw notIndexed else return argument
    let components ← Json.defaulted "components" [] (Json.asList component) members
    if admitsType type (!components.isEmpty) then
      return (⟨name, type, internalType, components⟩, indexed)
    else throw (.inField "type" (.expected "a type specifier"))

/-- Read a parameter of anything but an event. -/
def Argument.ofJson (v : Json) : Json.Shaped Argument := do
  let (argument, indexed) ← readArgument (v.height + 1) v
  if indexed.isSome then throw notIndexed else return argument

/-- Read a parameter of an event. -/
def EventArgument.ofJson (v : Json) : Json.Shaped EventArgument :=
  (readArgument (v.height + 1) v).map fun p => ⟨p.1, p.2.getD false⟩

/-- The kinds of items. -/
inductive Kind where
  /-- A constructor. -/
  | constructor
  /-- What is called when no function is. -/
  | fallback
  /-- What is called by a plain payment. -/
  | receive
  /-- A function. -/
  | function
  /-- An event. -/
  | event
  /-- An error. -/
  | error
  deriving DecidableEq, Repr

namespace Kind

/-- The written names of the kinds; a number means the kind at that position. -/
def choices : List (String × Kind) :=
  [("constructor", .constructor), ("fallback", .fallback), ("receive", .receive),
    ("function", .function), ("event", .event), ("error", .error)]

/-- The fields of an item that may be given as an array. The others cannot, since they look for
their mutability under several names. -/
def arrayFields? : Kind → Option (List String)
  | .event => some ["name", "inputs", "anonymous"]
  | .error => some ["name", "inputs"]
  | _ => none

/-- Read a kind by its name. -/
def ofName : Json → Json.Shaped Kind
  | .str name =>
    match choices.lookup name with
    | some kind => .ok kind
    | none => .error (.expected "a kind of item")
  | _ => .error (.expected "the name of a kind of item")

/-- Read a kind by its name or by its position among the kinds. -/
def ofNameOrPosition : Json → Json.Shaped Kind
  | .num (.int (.ofNat position)) =>
    match choices[position]? with
    | some choice => .ok choice.2
    | none => .error (.expected "the position of a kind of item")
  | v => ofName v

end Kind

/-- The kind of an item and its fields. -/
def Item.split (readKind : Json → Json.Shaped Kind) :
    Json → Json.Shaped (Kind × List (String × Json))
  | .obj members => do return (← Json.required "type" readKind members, members)
  | .arr (written :: values) => do
    let kind ← (readKind written).mapError (.inField "type")
    match kind.arrayFields? with
    | some names => return (kind, ← (Json.arr values).fields names)
    | none => throw (.expected "an object")
  | _ => throw (.expected "an object")

/-- Read an item whose kind is written as `readKind` reads it. -/
def Item.ofJson (readKind : Json → Json.Shaped Kind) (v : Json) : Json.Shaped Item := do
  let (kind, members) ← Item.split readKind v
  match kind with
  | .constructor =>
    let inputs ← Json.required "inputs" (Json.asList Argument.ofJson) members
    return .constructor ⟨inputs, ← Mutability.ofMembers members⟩
  | .fallback => return .fallback (← Mutability.ofMembers members)
  | .receive => return .receive (← Mutability.ofMembers members)
  | .function =>
    let name ← Json.required "name" asName members
    let inputs ← Json.required "inputs" (Json.asList Argument.ofJson) members
    let outputs ← Json.required "outputs" (Json.asList Argument.ofJson) members
    return .function ⟨name, inputs, outputs, ← Mutability.ofMembers members⟩
  | .event =>
    let name ← Json.required "name" asName members
    let inputs ← Json.required "inputs" (Json.asList EventArgument.ofJson) members
    let anonymous ← Json.required "anonymous" Json.asBool members
    return .event ⟨name, inputs, anonymous⟩
  | .error =>
    let name ← Json.required "name" asName members
    let inputs ← Json.required "inputs" (Json.asList Argument.ofJson) members
    return .error ⟨name, inputs⟩

/-- Read an interface that stands by itself if `readKind` is `Kind.ofName`, and one inside another
document, which takes kinds by position too, if it is `Kind.ofNameOrPosition`. -/
def Interface.ofJson (readKind : Json → Json.Shaped Kind) (v : Json) : Json.Shaped Interface := do
  let items ← Json.asList (Item.ofJson readKind) v
  match Interface.ofItems? items with
  | some abi => return abi
  | none => throw (.expected "at most one constructor, fallback and receive item")

mutual

/-- The written form of a parameter, with the member of an event's parameter put behind its type. -/
def argumentJson (indexed : Option Bool) : Argument → Json
  | ⟨name, type, internalType, components⟩ =>
    Json.object [("name", some (.str name)), ("type", some (.str type)),
      ("indexed", indexed.map .bool), ("internalType", internalType.map .str),
      ("components", if components.isEmpty then none else some (.arr (argumentsJson components)))]

/-- The written forms of some parameters. -/
def argumentsJson : List Argument → List Json
  | [] => []
  | a :: rest => argumentJson none a :: argumentsJson rest

end

/-- The written form of an item. -/
def Item.json : Item → Json
  | .constructor c =>
    .obj [("type", .str "constructor"), ("inputs", .arr (argumentsJson c.inputs)),
      ("stateMutability", .str c.mutability.text)]
  | .fallback m => .obj [("type", .str "fallback"), ("stateMutability", .str m.text)]
  | .receive m => .obj [("type", .str "receive"), ("stateMutability", .str m.text)]
  | .function f =>
    .obj [("type", .str "function"), ("name", .str f.name),
      ("inputs", .arr (argumentsJson f.inputs)), ("outputs", .arr (argumentsJson f.outputs)),
      ("stateMutability", .str f.mutability.text)]
  | .event e =>
    .obj [("type", .str "event"), ("name", .str e.name),
      ("inputs", .arr (e.inputs.map fun a => argumentJson (some a.indexed) a.argument)),
      ("anonymous", .bool e.anonymous)]
  | .error e =>
    .obj [("type", .str "error"), ("name", .str e.name), ("inputs", .arr (argumentsJson e.inputs))]

/-- The written form of an interface. -/
def Interface.json (abi : Interface) : Json := .arr (abi.items.map Item.json)

end RollupInput.Contract
