import RollupInput.Specification

/-!
# Choosing a specification

The first specification of which some predicate holds is the one for an input. A specification
without predicates is never chosen, and neither is any for an input of which nothing is known.
-/

namespace RollupInput

/-- The field that a condition on a field reads. The identifier of the application stands for its
address. -/
def InputField.resolve : InputField → InputField
  | .applicationId => .applicationAddress
  | field => field

/-- What is known of a field. -/
def KnownInput.read (input : KnownInput) (field : InputField) : Option String :=
  match field.resolve with
  | .msgSender => input.msgSender
  | .applicationAddress => input.application.bind Application.address
  | .applicationId => input.application.bind Application.id

/-- Whether a text is `0x` and hexadecimal digits. -/
def isHexText (cs : List Char) : Bool :=
  match Text.after? ['0', 'x'] cs with
  | some digits => digits.all Text.isHexDigit
  | none => false

/-- Whether two values of a field are the same. The case of letters does not matter between two
hexadecimal texts. -/
def sameValue (actual expected : String) : Bool :=
  if isHexText actual.toList && isHexText expected.toList then
    actual.toList.map Text.lowerAscii == expected.toList.map Text.lowerAscii
  else actual == expected

/-- Whether a condition holds for an input. -/
def Condition.holds (c : Condition) (input : KnownInput) : Bool :=
  match c.operator with
  | .equals =>
    match input.read c.field with
    | some actual => sameValue actual c.value
    | none => false

/-- Whether a predicate holds for an input. One without conditions does not. -/
def Predicate.holds (p : Predicate) (input : KnownInput) : Bool :=
  !p.conditions.isEmpty &&
    match p.operator with
    | .and => p.conditions.all fun c => c.holds input
    | .or => p.conditions.any fun c => c.holds input

/-- Whether one of a specification's predicates holds for an input. -/
def Specification.matches (s : Specification) (input : KnownInput) : Bool :=
  (s.conditionals.getD []).any fun p => p.holds input

/-- The first of some specifications that is chosen for an input. -/
def Specification.choose? (input : Option KnownInput) (specs : List Specification) :
    Option Specification :=
  match input with
  | none => none
  | some input =>
    if input.isEmpty then none
    else specs.find? fun s => s.isSelectable && s.matches input

end RollupInput
