import RollupInput.Contract.Call
import RollupInput.Declaration.Params
import RollupInput.Decoding
import RollupInput.Payload

/-!
# Decoding a payload

By parameter declarations a payload is cut into byte ranges, one of them is decoded as the target,
and the pieces are folded into the result. By a contract interface it is decoded as a function
call. A failure is kept in the state of the decode and ends it.
-/

namespace RollupInput.Decoding

open Abi

/-- Decode data by declarations, one piece per parameter. A parameter without a name is named by
its place. -/
def paramPieces [Memory] (declarations : List String) (data : List UInt8) :
    Except DecodeFault (List Piece) :=
  match Declaration.parse declarations with
  | .error e => .error e
  | .ok params =>
    match decodeValues params data with
    | .error e => .error e
    | .ok values =>
      .ok ((params.zip values).mapIdx fun index p =>
        { name := p.1.nonBlankName?.getD s!"params{index}", part := p.2.asBytes?.getD [],
          decoded := some p.2 })

/-- Decode a byte range as a single type. A name that stands behind the type renames the piece. -/
def typedPiece [Memory] (name kind : String) (part : List UInt8) : Except DecodeFault Piece :=
  match Declaration.parse [kind] with
  | .error e => .error e
  | .ok [param] =>
    (decodeValues [param] part).map fun values =>
      { name := param.nonBlankName?.getD name, part := part, decoded := values.head? }
  | .ok params =>
    .error (.malformedDeclaration kind s!"expected a single type, found {params.length} parameters")

/-- The piece that the byte range at an index cuts out of a payload. A range that may be missing and
lies outside the payload gives an empty piece, whatever its type. -/
def rangePiece [Memory] (payload : List UInt8) (index : Nat) (r : ByteRange) :
    Except DecodeFault Piece :=
  let name := r.listedName index
  match Payload.extract payload r.start r.stop with
  | .error e => if r.mayBeMissing then .ok ⟨name, [], some (.bytes [])⟩ else .error e
  | .ok part =>
    match r.type.bind Text.nonBlank? with
    | none => .ok ⟨name, part, some (.bytes part)⟩
    | some kind => typedPiece name kind part

/-- The pieces of byte ranges, the first of which has the given index, up to the first failure, and
that failure. -/
def rangePieces [Memory] (payload : List UInt8) (index : Nat) :
    List ByteRange → List Piece × Option DecodeFault
  | [] => ([], none)
  | r :: rest =>
    match rangePiece payload index r with
    | .error e => ([], some e)
    | .ok piece =>
      let more := rangePieces payload (index + 1) rest
      (piece :: more.1, more.2)

/-- Cut the payload into its byte ranges, or decode it as a whole if there are none. -/
def sliced [Memory] (mode : ParamsMode) (d : Decoding) : Decoding :=
  match mode.ranges.getD [] with
  | [] =>
    match paramPieces mode.declarations d.payload with
    | .ok pieces => (d.addPieces pieces).enter .sliced
    | .error e => d.failWith e
  | ranges =>
    match rangePieces d.payload 0 ranges with
    | (pieces, none) => (d.addPieces pieces).enter .sliced
    | (pieces, some e) => (d.addPieces pieces).failWith e

/-- Decode the target, if there is one, by the declarations. -/
def targetExpanded [Memory] (mode : ParamsMode) (d : Decoding) : Decoding :=
  match mode.target with
  | none => d.enter .targetExpanded
  | some target =>
    match d.piece? target with
    | none => d.failWith (.missingTarget target)
    | some piece =>
      match paramPieces mode.declarations piece.part with
      | .ok pieces => (d.addPieces pieces).enter .targetExpanded
      | .error e => d.failWith (.targetFault target mode.declarations e)

/-- Fold the pieces into the result. No piece of the target's name is taken. -/
def resolved (mode : ParamsMode) (d : Decoding) : Decoding :=
  let kept := d.pieces.filter fun p => mode.target != some p.name
  let entries := kept.map fun p => (p.name, p.value)
  (d.setResult (NamedValues.empty.insertAll entries)).enter .resolved

/-- Decode the payload as a function call: its name, its arguments, and its arguments again as
pairs of a name and a value. -/
def called [Memory] (abi : Contract.Interface) (d : Decoding) : Decoding :=
  match abi.readCall d.payload with
  | .error e => d.failWith e
  | .ok call =>
    let pairs := call.named.map fun p => Value.tuple [.string p.1, p.2]
    (d.setResult (NamedValues.empty.insertAll
      [("functionName", .string call.name), ("args", .array call.arguments),
        ("orderedNamedArgs", .array pairs)])).enter .resolved

/-- Decode a payload by a specification. -/
def run [Memory] (spec : Specification) (payload : List UInt8) : Decoding :=
  match spec.mode with
  | .params mode =>
    (((start spec payload).andThen (sliced mode)).andThen (targetExpanded mode)).andThen
      (resolved mode)
  | .contract abi => (start spec payload).andThen (called abi)

/-- Decode a payload by a written specification. -/
def runJson [Memory] (spec : Json) (payload : List UInt8) : Except DecodeFault Decoding :=
  (Specification.ofJson spec).map fun spec => run spec payload

end RollupInput.Decoding
