import RollupInput.Abi.Room
import RollupInput.Text.Hex

/-!
# Misfits

The ways in which bytes cannot be read as values of the asked types, and their wording.
-/

namespace RollupInput.Abi

/-- How deep containers may open. -/
def maxDepth : Nat := 16

/-- Why bytes cannot be read as values of the asked types. -/
inductive Misfit where
  /-- The bytes end before a value does, or an offset leads past them. -/
  | overrun
  /-- Containers nest too deep. -/
  | tooDeep
  /-- A word that is no 64 bit number stands where an offset or a length is read. -/
  | notAnOffset (word : List UInt8)
  /-- There is no room for the values of the types, whatever the bytes. -/
  | noRoom (shortage : Shortage)
  /-- The values that the bytes promise take too much room. -/
  | tooLarge
  deriving DecidableEq, Repr

/-- The wording of a misfit. -/
def Misfit.message : Misfit → String
  | .overrun => "ABI decoding failed: buffer overrun while deserializing"
  | .tooDeep => s!"ABI decoding failed: recursion limit of {maxDepth} exceeded during decoding"
  | .notAnOffset word =>
    "type check failed for \"offset (usize)\" with data: " ++ String.ofList (Text.Hex.digits word)
  | .noRoom shortage => shortage.message
  | .tooLarge => s!"ABI decoding failed: memory limit of {maxRoom} bytes exceeded during decoding"

end RollupInput.Abi
