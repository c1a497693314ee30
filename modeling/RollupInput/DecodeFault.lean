import RollupInput.Text

/-!
# Decode faults

The causes for which a payload is not decoded, with the wording that is shown to a user. Details
that come from a reader of text or of an encoding are carried as their own wording.
-/

namespace RollupInput

/-- The modes that a specification may have, as they are written, in display order. -/
def modeNames : List String := ["abi_params", "json_abi"]

/-- Which end of a byte range falls outside the payload. -/
inductive RangeEdge where
  /-- The inclusive start. -/
  | start
  /-- The exclusive end. -/
  | stop
  deriving DecidableEq, Repr

/-- How an edge is named in a message. -/
def RangeEdge.text : RangeEdge → String
  | .start => "starting"
  | .stop => "ending"

/-- Why a payload is not decoded. -/
inductive DecodeFault where
  /-- A specification has no mode, or one that is unknown. -/
  | unknownMode (mode : String)
  /-- A specification of a known mode has the wrong shape. -/
  | malformedSpecification (reason : String)
  /-- A payload is not hexadecimal text. -/
  | malformedPayload (reason : String)
  /-- A byte range reaches outside the payload. -/
  | outOfBounds (edge : RangeEdge) (offset size : Nat)
  /-- A declaration of parameters cannot be read. -/
  | malformedDeclaration (declaration reason : String)
  /-- The data are smaller than the head of the parameters. -/
  | tooShort (params data : String) (size : Nat)
  /-- The data are no encoding of the parameters. -/
  | misfit (params : String) (size : Nat) (reason : String)
  /-- No function of the interface has the selector. -/
  | unknownSelector (selector : String)
  /-- No piece has the name of the target. -/
  | missingTarget (target : String)
  /-- The bytes of the target are no encoding of the parameters. -/
  | targetFault (target : String) (declarations : List String) (cause : DecodeFault)
  deriving DecidableEq, Repr

/-- The wording of a fault, over several lines. -/
def DecodeFault.message : DecodeFault → String
  | .unknownMode mode =>
    s!"Mode \"{mode}\" is not supported.\nSupported modes: " ++
      Text.joinWith ", " modeNames ++ "."
  | .malformedSpecification reason => s!"Invalid specification.\n\nDetails: {reason}"
  | .malformedPayload reason =>
    s!"Invalid payload. Expected 0x-prefixed hex.\n\nDetails: {reason}"
  | .outOfBounds edge offset size =>
    s!"Slice {edge.text} at offset \"{offset}\" is out-of-bounds (size: {size})."
  | .malformedDeclaration declaration reason =>
    s!"Invalid ABI parameter.\n\nDeclaration: {declaration}\nDetails: {reason}"
  | .tooShort params data size =>
    s!"Data size of {size} bytes is too small for given parameters.\n\nParams: ({params})\n" ++
      s!"Data:   {data} ({size} bytes)"
  | .misfit params size reason =>
    s!"Failed to decode data with the given parameters.\n\nParams: ({params})\n" ++
      s!"Data size: {size} bytes\nDetails: {reason}"
  | .unknownSelector selector =>
    s!"Encoded function signature \"{selector}\" not found on ABI.\n" ++
      "Make sure you are using the correct ABI and that the function exists on it.\n" ++
      "You can look up the signature here: " ++
      s!"https://openchain.xyz/signatures?query={selector}."
  | .missingTarget target =>
    s!"Slice target \"{target}\" does not match the name of any slice instruction."
  | .targetFault target declarations cause =>
    s!"Failed to decode the slice target \"{target}\" with the ABI parameters.\n" ++
      s!"Either \"{target}\" selects the wrong bytes or the ABI parameters do not describe them." ++
      "\n\nABI Params: [" ++
      Text.joinWith ", " (declarations.map fun declaration => "\"" ++ declaration ++ "\"") ++
      "]\nCause: " ++ cause.message

end RollupInput
