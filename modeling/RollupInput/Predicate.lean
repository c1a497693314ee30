import RollupInput.Json.Shape

/-!
# Predicates on inputs

A predicate combines conditions on the fields of a rollup input by one logical operator. An input
may be known only in part; a condition on a field that is absent does not hold.
-/

namespace RollupInput

/-- How the conditions of a predicate are combined. -/
inductive Connective where
  /-- All of them have to hold. -/
  | and
  /-- One of them has to hold. -/
  | or
  deriving DecidableEq, Repr

/-- What a condition looks at. -/
inductive InputField where
  /-- The sender of the input. -/
  | msgSender
  /-- The identifier of the application, an older name of its address. -/
  | applicationId
  /-- The address of the application. -/
  | applicationAddress
  deriving DecidableEq, Repr

/-- How a condition compares. -/
inductive Comparison where
  /-- The field has the given value. -/
  | equals
  deriving DecidableEq, Repr

/-- A comparison of one field with a value. -/
structure Condition where
  /-- What is looked at. -/
  field : InputField
  /-- How it is compared. -/
  operator : Comparison
  /-- What it is compared with. -/
  value : String
  deriving DecidableEq, Repr

/-- Conditions under one logical operator. -/
structure Predicate where
  /-- How the conditions are combined. -/
  operator : Connective
  /-- The conditions. -/
  conditions : List Condition
  deriving DecidableEq, Repr

/-- The application that an input is for. -/
structure Application where
  /-- The identifier. -/
  id : Option String
  /-- The address. -/
  address : Option String
  deriving DecidableEq, Repr

/-- What is known of an input. -/
structure KnownInput where
  /-- The sender. -/
  msgSender : Option String
  /-- The application. -/
  application : Option Application
  deriving DecidableEq, Repr

/-- Whether none of the fields is known. -/
def KnownInput.isEmpty (input : KnownInput) : Bool :=
  input.msgSender.isNone &&
    match input.application with
    | none => true
    | some app => app.id.isNone && app.address.isNone

namespace Connective

/-- The written names of the operators. -/
def choices : List (String × Connective) := [("and", .and), ("or", .or)]

/-- The written name. -/
def text : Connective → String
  | .and => "and"
  | .or => "or"

end Connective

namespace InputField

/-- The written names of the fields. -/
def choices : List (String × InputField) :=
  [("msgSender", .msgSender), ("application.id", .applicationId),
    ("application.address", .applicationAddress)]

/-- The written name. -/
def text : InputField → String
  | .msgSender => "msgSender"
  | .applicationId => "application.id"
  | .applicationAddress => "application.address"

end InputField

namespace Comparison

/-- The written names of the comparisons. -/
def choices : List (String × Comparison) := [("equals", .equals)]

/-- The written name. -/
def text : Comparison → String
  | .equals => "equals"

end Comparison

namespace Condition

/-- Read a condition. -/
def ofJson (v : Json) : Json.Shaped Condition := do
  let members ← v.fields ["field", "operator", "value"]
  let field ← Json.required "field" (Json.asChoice Json.isNull InputField.choices) members
  let operator ← Json.required "operator" (Json.asChoice Json.isNull Comparison.choices) members
  let value ← Json.required "value" Json.asString members
  return ⟨field, operator, value⟩

/-- The written form. -/
def json (c : Condition) : Json :=
  .obj [("field", .str c.field.text), ("operator", .str c.operator.text), ("value", .str c.value)]

end Condition

namespace Predicate

/-- Read a predicate. -/
def ofJson (v : Json) : Json.Shaped Predicate := do
  let members ← v.fields ["logicalOperator", "conditions"]
  let operator ← Json.required "logicalOperator" (Json.asChoice Json.isNull Connective.choices)
    members
  let conditions ← Json.required "conditions" (Json.asList Condition.ofJson) members
  return ⟨operator, conditions⟩

/-- The written form. -/
def json (p : Predicate) : Json :=
  .obj [("logicalOperator", .str p.operator.text),
    ("conditions", .arr (p.conditions.map Condition.json))]

end Predicate

/-- A field that is read loosely: a string as it is, a number or a truth value as its text, and
anything else as absent. -/
def looseText : Json → Option String
  | .str s => some s
  | .num n => some (String.ofList n.text)
  | .bool b => some (if b then "true" else "false")
  | _ => none

namespace Application

/-- Read an application. -/
def ofJson (v : Json) : Json.Shaped Application := do
  let members ← v.fields ["id", "address"]
  return ⟨(members.lookup "id").bind looseText, (members.lookup "address").bind looseText⟩

/-- The written form. -/
def json (app : Application) : Json :=
  Json.object [("id", app.id.map .str), ("address", app.address.map .str)]

end Application

namespace KnownInput

/-- An input of which nothing is known. -/
def empty : KnownInput := ⟨none, none⟩

/-- Read an input. -/
def ofJson (v : Json) : Json.Shaped KnownInput := do
  let members ← v.fields ["msgSender", "application"]
  let application ← Json.optional "application" Application.ofJson members
  return ⟨(members.lookup "msgSender").bind looseText, application⟩

/-- The written form. -/
def json (input : KnownInput) : Json :=
  Json.object [("msgSender", input.msgSender.map .str),
    ("application", input.application.map Application.json)]

end KnownInput

end RollupInput
