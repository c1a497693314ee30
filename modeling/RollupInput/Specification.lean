import RollupInput.Contract.Interface
import RollupInput.Predicate

/-!
# Specifications

A specification says how a payload is decoded. In one mode it lists parameter declarations and
byte ranges, of which one may be decoded again by the declarations; in the other it holds the
interface of a contract, and the payload is a function call.
-/

namespace RollupInput

/-- One byte range of a payload. -/
structure ByteRange where
  /-- The inclusive start. -/
  start : Nat
  /-- The exclusive end; the end of the payload if absent. -/
  stop : Option Nat
  /-- The name under which its value is listed. -/
  name : Option String
  /-- The type as which it is decoded; its bytes are kept as they are if absent. -/
  type : Option String
  /-- Whether it may lie outside the payload. -/
  optional : Option Bool
  deriving DecidableEq, Repr

namespace ByteRange

/-- Whether the range may lie outside the payload. -/
def mayBeMissing (r : ByteRange) : Bool := r.optional.getD false

/-- The name under which the range at an index is listed: its own unless that is blank, else one
made from the index. -/
def listedName (r : ByteRange) (index : Nat) : String :=
  (r.name.bind Text.nonBlank?).getD s!"param{index}"

end ByteRange

/-- Parameter declarations, applied to a payload or to one byte range of it. -/
structure ParamsMode where
  /-- The declarations. -/
  declarations : List String
  /-- The byte ranges. -/
  ranges : Option (List ByteRange)
  /-- The name of the range that the declarations are applied to. -/
  target : Option String
  deriving DecidableEq, Repr

/-- How a payload is decoded. -/
inductive Mode where
  /-- By parameter declarations. -/
  | params (mode : ParamsMode)
  /-- As a call of a contract. -/
  | contract (abi : Contract.Interface)
  deriving Repr, BEq

/-- The written name of a mode. -/
def Mode.name : Mode → String
  | .params _ => "abi_params"
  | .contract _ => "json_abi"

/-- A recipe for decoding payloads. -/
structure Specification where
  /-- The identifier, given by whoever stores the specification. -/
  id : Option String
  /-- The name. -/
  name : String
  /-- When it was made, in milliseconds of the Unix epoch. -/
  timestamp : Nat
  /-- Its version. -/
  version : Nat
  /-- How a payload is decoded. -/
  mode : Mode
  /-- The predicates of which one has to hold for the specification to be chosen for an input. -/
  conditionals : Option (List Predicate)
  deriving Repr, BEq

/-- Whether the specification can be chosen for an input at all. -/
def Specification.isSelectable (s : Specification) : Bool :=
  match s.conditionals with
  | none => false
  | some predicates => !predicates.isEmpty

end RollupInput
