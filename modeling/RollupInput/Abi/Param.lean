import RollupInput.Abi.Reader
import RollupInput.DecodeFault

/-!
# Parameters

A parameter is a type with a name and, for tuples, the parameters that its fields are declared
as. Decoding data for a list of parameters first compares the size of the data with the head of
the encoding, and afterwards turns every tuple whose fields all have names into a struct.
-/

namespace RollupInput.Abi

/-- A parameter with its resolved type. -/
structure Param where
  /-- The name as it is declared. -/
  name : Option String
  /-- The type as text. -/
  kind : String
  /-- The type. -/
  type : AbiType
  /-- The fields of the innermost tuple of the type. -/
  components : List Param
  deriving Repr, BEq, Inhabited

namespace Param

/-- The declared name, if there is one and it is not blank. -/
def nonBlankName? (p : Param) : Option String := p.name.bind Text.nonBlank?

/-- The canonical type with the declared name, as messages list it. -/
def listingEntry (p : Param) : String :=
  match p.nonBlankName? with
  | some name => p.type.text ++ " " ++ name
  | none => p.type.text

/-- The parameters as messages list them. -/
def listing (params : List Param) : String := Text.joinWith ", " (params.map listingEntry)

/-- The size in bytes of the head of an encoding, added to a size, unless a count does not fit a
64 bit word. -/
def headBytesFrom (total : Nat) : List Param → Option Nat
  | [] => some total
  | p :: rest =>
    p.type.wordsInHead.bind fun n =>
      (AbiType.counted (n * 32)).bind fun bytes =>
        (AbiType.counted (total + bytes)).bind fun sum => headBytesFrom sum rest

/-- The size in bytes of the head of an encoding of the parameters. -/
def headBytes (params : List Param) : Option Nat := headBytesFrom 0 params

/-- Whether the parameters name all of `count` fields. -/
def nameAll (components : List Param) (count : Nat) : Bool :=
  components.length == count && components.all fun p => p.nonBlankName?.isSome

end Param

mutual

/-- The value with names from the components put on the fields of its tuples. -/
def label (components : List Param) : Value → Value
  | .array items => .array (labelAll components items)
  | .tuple items =>
    if Param.nameAll components items.length then .struct (labelNamed components items)
    else .tuple (labelEach components items)
  | v => v

/-- Every value of a list with names from the same components. -/
def labelAll (components : List Param) : List Value → List Value
  | [] => []
  | v :: rest => label components v :: labelAll components rest

/-- Fields in order, each with names from the components of its own parameter, if it has one. -/
def labelEach (components : List Param) : List Value → List Value
  | [] => []
  | v :: rest =>
    label ((components.head?.map Param.components).getD []) v :: labelEach components.tail rest

/-- Fields in order with their names. -/
def labelNamed (components : List Param) : List Value → List (String × Value)
  | [] => []
  | v :: rest =>
    ((components.head?.bind Param.nonBlankName?).getD "",
      label ((components.head?.map Param.components).getD []) v) ::
        labelNamed components.tail rest

end

/-- Decode data as the encoding of a list of parameters, one value per parameter. No parameters
ask for no data. -/
def decodeValues [Memory]
    (params : List Param) (data : List UInt8) : Except DecodeFault (List Value) :=
  if params.isEmpty then .ok []
  else
    let fits : Bool :=
      match Param.headBytes params with
      | none => false
      | some size => size ≤ data.length
    if !fits then
      .error (.tooShort (Param.listing params) (Text.Hex.ofBytes data) data.length)
    else
      match decode (params.map Param.type) data with
      | .error e => .error (.misfit (Param.listing params) data.length e.message)
      | .ok values => .ok (List.zipWith (fun v (p : Param) => label p.components v) values params)

end RollupInput.Abi
