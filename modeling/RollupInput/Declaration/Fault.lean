import RollupInput.Abi.TypeText

/-!
# Faults of declarations

What can be wrong with a declaration of parameters, with the wording that an error shows.
-/

namespace RollupInput.Declaration

/-- Why a declaration cannot be read. -/
inductive Fault where
  /-- The keyword of a struct has no body after it. -/
  | structWithoutBody
  /-- A struct has a name that is no identifier. -/
  | structName (name : List Char)
  /-- The body of a struct is not closed. -/
  | structUnclosed (name : List Char)
  /-- A struct has no fields. -/
  | structEmpty (name : List Char)
  /-- Two structs have one name. -/
  | structRepeated (name : List Char)
  /-- A struct is used among its own fields. -/
  | structCycle (name : List Char)
  /-- There is nothing between two commas. -/
  | emptyParameter
  /-- The brackets of a text do not balance. -/
  | unbalanced (text : List Char)
  /-- A parameter has a second name. -/
  | unexpectedWord (word text : List Char)
  /-- A parameter has a name that is no identifier. -/
  | parameterName (name : List Char)
  /-- An array has a size that is no 64 bit number. -/
  | arraySize (size : List Char)
  /-- A text is the name of no struct and no type. -/
  | unknownType (text : List Char) (cause : Option Abi.TypeFault)
  deriving DecidableEq, Repr

/-- A text between quotes. -/
def quote (cs : List Char) : List Char := '"' :: (cs ++ ['"'])

/-- The wording of a fault, as characters. -/
def Fault.text : Fault → List Char
  | .structWithoutBody => "struct definition is missing '\x7b'".toList
  | .structName name => "invalid struct name ".toList ++ quote name
  | .structUnclosed name => "struct ".toList ++ name ++ " is missing '\x7d'".toList
  | .structEmpty name => "struct ".toList ++ name ++ " has no fields".toList
  | .structRepeated name => "struct ".toList ++ name ++ " is declared more than once".toList
  | .structCycle name => "struct ".toList ++ name ++ " refers to itself".toList
  | .emptyParameter => "empty parameter".toList
  | .unbalanced text => "unbalanced brackets in ".toList ++ quote text
  | .unexpectedWord word text => "unexpected ".toList ++ quote word ++ " in ".toList ++ quote text
  | .parameterName name => "invalid parameter name ".toList ++ quote name
  | .arraySize size => "invalid array size ".toList ++ quote size
  | .unknownType text none => "unknown type ".toList ++ quote text
  | .unknownType text (some cause) =>
    "unknown type ".toList ++ quote text ++ ": ".toList ++ cause.message

/-- The wording of a fault. -/
def Fault.message (f : Fault) : String := String.ofList f.text

end RollupInput.Declaration
