import RollupInput.Contract.Interface

/-!
# Function calls

The data of a call are a selector and the encoding of the arguments of the function that it
names.
-/

namespace RollupInput.Contract

open Abi

mutual

/-- The type of a parameter. The fields of a tuple decide its type; its written type only adds the
array suffixes. -/
def Argument.resolve : Argument → Except TypeFault AbiType
  | ⟨_, type, _, components⟩ =>
    match TypeText.parse? type.toList with
    | none => .error .malformed
    | some written =>
      if components.isEmpty then AbiType.ofText written
      else
        (resolveAll components).map fun fields =>
          written.suffixes.foldl AbiType.suffixed (.tuple fields)

/-- The types of some parameters, in order. -/
def resolveAll : List Argument → Except TypeFault (List AbiType)
  | [] => .ok []
  | a :: rest =>
    match a.resolve with
    | .error e => .error e
    | .ok t => (resolveAll rest).map (t :: ·)

end

mutual

/-- The parameter with its resolved type. Its kind is the type as it is written. -/
def Argument.param : Argument → Except DecodeFault Param
  | ⟨name, type, internalType, components⟩ =>
    match Argument.resolve ⟨name, type, internalType, components⟩ with
    | .error e =>
      .error (.malformedDeclaration (Text.trimmed (type ++ " " ++ name)) (String.ofList e.message))
    | .ok t => (params components).map fun fields => ⟨some name, type, t, fields⟩

/-- The parameters with their resolved types. -/
def params : List Argument → Except DecodeFault (List Param)
  | [] => .ok []
  | a :: rest =>
    match a.param with
    | .error e => .error e
    | .ok p => (params rest).map (p :: ·)

end

/-- A decoded call. -/
structure Call where
  /-- The name of the function. -/
  name : String
  /-- The signature of the function. -/
  signature : String
  /-- The values of the arguments. -/
  arguments : List Value
  /-- The values of the arguments with their names. -/
  named : List (String × Value)
  deriving Repr, BEq

/-- The name under which the argument at an index is listed: its own, else its type. -/
def argumentName (index : Nat) (p : Param) : String :=
  match p.nonBlankName? with
  | some name => name
  | none => if (Text.nonBlank? p.kind).isSome then p.kind else s!"arg-{index}"

/-- The first function in the order of names that has the selector of some calldata. -/
def Interface.functionOf? (abi : Interface) (calldata : List UInt8) : Option Function :=
  abi.functions.find? fun f => f.selector == calldata.take selectorSize

/-- Decode calldata as a call of a function of an interface. -/
def Interface.readCall [Memory]
    (abi : Interface) (calldata : List UInt8) : Except DecodeFault Call :=
  match abi.functionOf? calldata with
  | none => .error (.unknownSelector (Text.Hex.ofBytes (calldata.take selectorSize)))
  | some f =>
    match params f.inputs with
    | .error e => .error e
    | .ok ps =>
      match decodeValues ps (calldata.drop selectorSize) with
      | .error e => .error e
      | .ok values =>
        let names := ps.mapIdx argumentName
        .ok ⟨f.name, f.signature, values, names.zip values⟩

end RollupInput.Contract
