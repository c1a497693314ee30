import RollupInput.Contract.Json
import RollupInput.Json.Writer
import RollupInput.Specification

/-!
# Written specifications

A specification is written as an object. Its mode is looked at before anything else, whatever
kind of value it is given as; unknown members are ignored. The items of a contract's interface may
be given by the positions of their kinds.
-/

namespace RollupInput

/-- The bound on timestamps and offsets. -/
def longLimit : Nat := Nat.pow 2 64

/-- The bound on versions. -/
def versionLimit : Nat := Nat.pow 2 32

namespace ByteRange

/-- Read a byte range. -/
def ofJson (v : Json) : Json.Shaped ByteRange := do
  let members ← v.fields ["from", "to", "name", "type", "optional"]
  let start ← Json.required "from" (Json.asNatBelow longLimit) members
  let stop ← Json.optional "to" (Json.asNatBelow longLimit) members
  let name ← Json.optional "name" Json.asString members
  let type ← Json.optional "type" Json.asString members
  let optional ← Json.optional "optional" Json.asBool members
  return ⟨start, stop, name, type, optional⟩

/-- The written form. -/
def json (s : ByteRange) : Json :=
  Json.object [("from", some (.nat s.start)), ("to", s.stop.map .nat), ("name", s.name.map .str),
    ("type", s.type.map .str), ("optional", s.optional.map .bool)]

end ByteRange

namespace Specification

/-- The mode as an error shows it: a string as it is, any other value as its text, and nothing if
there is none. -/
def modeText (v : Json) : String :=
  match v.member? "mode" with
  | some (.str mode) => mode
  | some other => other.text
  | none => ""

/-- Read the members of a mode. -/
def readMode (name : String) (members : List (String × Json)) : Json.Shaped Mode := do
  if name == "json_abi" then
    let readInterface := Contract.Interface.ofJson Contract.Kind.ofNameOrPosition
    return .contract (← Json.required "abi" readInterface members)
  else
    let declarations ← Json.defaulted "abiParams" [] (Json.asList Json.asString) members
    let ranges ← Json.optional "sliceInstructions" (Json.asList ByteRange.ofJson) members
    let target ← Json.optional "sliceTarget" Json.asString members
    return .params ⟨declarations, ranges, target⟩

/-- Read a specification whose mode has the given name. -/
def readMembers (mode : String) (v : Json) : Json.Shaped Specification := do
  let members ← v.objectFields
  let id ← Json.optional "id" Json.asString members
  let name ← Json.required "name" Json.asString members
  let timestamp ← Json.defaulted "timestamp" 0 (Json.asNatBelow longLimit) members
  let version ← Json.defaulted "version" 0 (Json.asNatBelow versionLimit) members
  let conditionals ← Json.optional "conditionals" (Json.asList Predicate.ofJson) members
  return ⟨id, name, timestamp, version, ← readMode mode members, conditionals⟩

/-- Read a specification. -/
def ofJson (v : Json) : Except DecodeFault Specification :=
  let mode := modeText v
  if modeNames.contains mode then
    (readMembers mode v).mapError fun e => .malformedSpecification e.message
  else .error (.unknownMode mode)

/-- The members of a mode that come after its name. -/
def modeMembers : Mode → List (String × Option Json)
  | .params m =>
    [("abiParams", some (.arr (m.declarations.map .str))),
      ("sliceInstructions", m.ranges.map fun ranges => .arr (ranges.map ByteRange.json)),
      ("sliceTarget", m.target.map .str)]
  | .contract abi => [("abi", some abi.json)]

/-- The written form. -/
def json (s : Specification) : Json :=
  Json.object ([("id", s.id.map .str), ("name", some (.str s.name)),
    ("timestamp", some (.nat s.timestamp)), ("version", some (.nat s.version)),
    ("mode", some (.str s.mode.name))] ++ modeMembers s.mode ++
    [("conditionals", s.conditionals.map fun predicates => .arr (predicates.map Predicate.json))])

end Specification

end RollupInput
