import RollupInput.NamedValues
import RollupInput.Specification.Json

/-!
# The state of a decode

A decode of one payload by one specification passes through stages. On the way it collects
pieces, named fragments of the payload with their values; in the end it has a result or an error,
never both.
-/

namespace RollupInput

/-- How far a decode has come. -/
inductive Stage where
  /-- Nothing is done. -/
  | initialized
  /-- The payload is cut into pieces. -/
  | sliced
  /-- The slice target is decoded. -/
  | targetExpanded
  /-- The result is there. -/
  | resolved
  /-- It has failed. -/
  | errored
  deriving DecidableEq, Repr

/-- The written names of the stages. -/
def Stage.choices : List (String × Stage) :=
  [("initialized", .initialized), ("sliced", .sliced), ("targetExpanded", .targetExpanded),
    ("resolved", .resolved), ("errored", .errored)]

/-- The written name. -/
def Stage.text : Stage → String
  | .initialized => "initialized"
  | .sliced => "sliced"
  | .targetExpanded => "targetExpanded"
  | .resolved => "resolved"
  | .errored => "errored"

/-- A named fragment of a payload. -/
structure Piece where
  /-- The name. -/
  name : String
  /-- The bytes of a slice, or of a value that is a byte string. -/
  part : List UInt8
  /-- What the bytes were decoded as. -/
  decoded : Option Abi.Value
  deriving Repr, BEq

/-- The value of a piece: what it was decoded as, else its bytes. -/
def Piece.value (p : Piece) : Abi.Value := p.decoded.getD (.bytes p.part)

/-- The written form of a piece. -/
def Piece.json (p : Piece) : Json :=
  Json.object [("name", some (.str p.name)), ("part", some (.str (Text.Hex.ofBytes p.part))),
    ("decodedPart", p.decoded.map Abi.Value.json)]

/-- A decode of one payload by one specification. -/
structure Decoding where
  /-- The specification. -/
  spec : Specification
  /-- The payload. -/
  payload : List UInt8
  /-- How far the decode has come. -/
  stage : Stage
  /-- The pieces found so far. -/
  pieces : List Piece
  /-- The values by name. -/
  result : NamedValues
  /-- Why the decode has failed. -/
  error : Option DecodeFault
  deriving Repr

namespace Decoding

/-- A decode of which nothing is done. -/
def start (spec : Specification) (payload : List UInt8) : Decoding :=
  ⟨spec, payload, .initialized, [], .empty, none⟩

/-- Whether the decode has failed. -/
def hasFailed (d : Decoding) : Bool := d.error.isSome

/-- Whether the decode has a result. -/
def isResolved (d : Decoding) : Bool := d.stage == .resolved

/-- Go on with a step unless the decode has failed. -/
def andThen (d : Decoding) (step : Decoding → Decoding) : Decoding :=
  if d.hasFailed then d else step d

/-- Enter a stage. -/
def enter (d : Decoding) (stage : Stage) : Decoding := { d with stage := stage }

/-- Add pieces behind the ones that are there. -/
def addPieces (d : Decoding) (pieces : List Piece) : Decoding :=
  { d with pieces := d.pieces ++ pieces }

/-- Set the result. -/
def setResult (d : Decoding) (result : NamedValues) : Decoding := { d with result := result }

/-- Fail. The pieces stay, the result is cleared. -/
def failWith (d : Decoding) (error : DecodeFault) : Decoding :=
  { d with stage := .errored, result := .empty, error := some error }

/-- The first piece of a name. -/
def piece? (d : Decoding) (name : String) : Option Piece := d.pieces.find? (·.name == name)

/-- The written form of a decode. -/
def json (d : Decoding) : Json :=
  Json.object [("spec", some d.spec.json), ("input", some (.str (Text.Hex.ofBytes d.payload))),
    ("stage", some (.str d.stage.text)), ("pieces", some (.arr (d.pieces.map Piece.json))),
    ("result", some d.result.json),
    ("error", d.error.map fun e => .obj [("message", .str e.message)])]

end Decoding

end RollupInput
