import RollupInput.Proofs.Abi.RoundTrip
import RollupInput.Proofs.Decoding.Folding
import RollupInput.Proofs.Payload
import RollupInput.Proofs.Portals.Message

/-!
# Cutting packed encodings

Fields of fixed size stand one behind the other, and the ranges of a specification follow them: a
range that starts where the bytes of its field start cuts out that field, whatever stands before
and behind. The induction over the fields leaves the ranges of what ends the encoding.
-/

namespace RollupInput.Portals

open Abi Decoding

/-- What stands in a field of fixed size. -/
inductive Content where
  /-- A single byte. -/
  | flag (byte : UInt8)
  /-- An account. -/
  | account (account : Account)
  /-- A number. -/
  | number (quantity : Quantity)

namespace Content

/-- The bytes. -/
def bytes : Content → List UInt8
  | .flag byte => [byte]
  | .account a => a.bytes
  | .number q => q.word

/-- The number of bytes. -/
def size : Content → Nat
  | .flag _ => 1
  | .account _ => 20
  | .number _ => 32

/-- The decoded value. Only a number is decoded, all else is kept as it is. -/
def value : Content → Value
  | .flag byte => .bytes [byte]
  | .account a => .bytes a.bytes
  | .number q => q.decoded

/-- There are as many bytes as the size says. -/
theorem length_bytes (c : Content) : c.bytes.length = c.size := by
  cases c with
  | flag byte => rfl
  | account a => exact a.length_eq
  | number q => exact length_wordOfNat q.value

/-- No content is without bytes. -/
theorem size_pos (c : Content) : 0 < c.size := by
  cases c <;> exact Nat.zero_lt_succ _

end Content

/-- A field of a packed encoding. -/
structure Field where
  /-- The name. -/
  name : String
  /-- What stands in it. -/
  content : Content
  /-- The name is not blank and has no blanks around it. -/
  named : Text.nonBlank? name = some name

namespace Field

/-- The range of a field that starts at an offset. -/
def range (start : Nat) (f : Field) : ByteRange :=
  match f.content with
  | .flag _ | .account _ => bytesAt start (start + f.content.size) f.name
  | .number _ => valueAt start (start + f.content.size) f.name "uint"

/-- The piece that a field is cut out as. -/
def piece (f : Field) : Piece := ⟨f.name, f.content.bytes, some f.content.value⟩

/-- The entry of a field in the result. -/
def entry (f : Field) : String × Value := (f.name, f.content.value)

/-- The bytes of fields. -/
def packed : List Field → List UInt8
  | [] => []
  | f :: rest => f.content.bytes ++ packed rest

/-- The ranges of fields, the first of which starts at an offset. -/
def ranges (start : Nat) : List Field → List ByteRange
  | [] => []
  | f :: rest => f.range start :: ranges (start + f.content.size) rest

/-- The number of bytes of fields. -/
def size : List Field → Nat
  | [] => 0
  | f :: rest => f.content.size + size rest

/-- The bytes of fields are as many as counted. -/
theorem length_packed (fields : List Field) : (packed fields).length = size fields := by
  induction fields with
  | nil => rfl
  | cons f rest ih => rw [packed, List.length_append, f.content.length_bytes, ih, size]

end Field

/-- The piece of bytes that are kept as they are. -/
def rawPiece (name : String) (bs : List UInt8) : Piece := ⟨name, bs, some (.bytes bs)⟩

variable {front back bs : List UInt8}

/-- Bytes are cut out between what stands before and behind them. -/
theorem extract_between (hne : 0 < bs.length) :
    Payload.extract (front ++ (bs ++ back)) front.length (some (front.length + bs.length)) =
      .ok bs := by
  have hwithin : Payload.IsWithin (front ++ (bs ++ back)).length front.length
      (some (front.length + bs.length)) := by
    rw [Payload.isWithin_some_iff, List.length_append, List.length_append]
    omega
  have htake : ((front ++ (bs ++ back)).take (front.length + bs.length)).drop front.length = bs := by
    rw [← List.append_assoc, ← List.length_append, List.take_left, List.drop_left]
  rw [Payload.extract_of_isWithin hwithin, Payload.between_some, htake]

/-- What is not empty is cut out behind what stands before it. -/
theorem extract_behind (hne : 0 < back.length) :
    Payload.extract (front ++ back) front.length none = .ok back := by
  have hwithin : Payload.IsWithin (front ++ back).length front.length none := by
    rw [Payload.isWithin_none_iff, List.length_append]
    omega
  rw [Payload.extract_of_isWithin hwithin, Payload.between_none, List.drop_left]

/-- The type of numbers in packed encodings. -/
def numberParam : Param := ⟨none, "uint256", .uint 256, []⟩

/-- The type of numbers is read. -/
theorem parse_uint : Declaration.parse ["uint"] = .ok [numberParam] := by
  with_unfolding_all rfl

/-- A word is decoded as its number. -/
theorem typedPiece_word [Memory] (name : String) (q : Quantity) :
    typedPiece name "uint" q.word = .ok ⟨name, q.word, some q.decoded⟩ := by
  have hencode : encodeParams ([numberParam].map Param.type) [q.decoded] = q.word := by
    have hparts : partsOf ([numberParam].map Param.type) [q.decoded] = [⟨false, q.word⟩] := rfl
    rw [encodeParams, hparts]
    simp [layOut, heads, tails]
  have h : Encodable [numberParam] [q.decoded] :=
    { nonempty := by decide
      solid := by decide
      shallow := by decide
      typed := ⟨q.lt, trivial⟩
      sized := by
        rw [hencode, Quantity.word, length_wordOfNat]
        decide }
  have hdecode := decodeValues_of_encodable h
  rw [decode_encodeParams (by simp) h.solid h.shallow h.typed h.sized, hencode] at hdecode
  have hvalues : decodeValues [numberParam] q.word = .ok [q.decoded] := hdecode
  unfold typedPiece
  rw [parse_uint]
  dsimp only
  rw [hvalues]
  rfl

/-- The range of a field cuts it out. -/
theorem rangePiece_field [Memory] (index : Nat) (f : Field) :
    rangePiece (front ++ (f.content.bytes ++ back)) index (f.range front.length) = .ok f.piece := by
  have hcut := @extract_between front back f.content.bytes
    (by rw [f.content.length_bytes]; exact f.content.size_pos)
  rw [f.content.length_bytes] at hcut
  have hkept : rangePiece (front ++ (f.content.bytes ++ back)) index
      (bytesAt front.length (front.length + f.content.size) f.name) =
      .ok (rawPiece f.name f.content.bytes) := by
    unfold rangePiece bytesAt ByteRange.listedName
    dsimp only [Option.bind_some, Option.bind_none]
    rw [hcut, f.named]
    rfl
  obtain ⟨name, content, named⟩ := f
  cases content with
  | flag byte => exact hkept
  | account a => exact hkept
  | number q =>
    have hkind : (some "uint").bind Text.nonBlank? = some "uint" := by rfl
    unfold Field.range rangePiece valueAt ByteRange.listedName
    dsimp only [Option.bind_some, Option.bind_none] at hcut named hkind ⊢
    rw [hcut, named]
    dsimp only [Option.getD_some]
    rw [hkind]
    exact typedPiece_word name q

/-- The ranges of fields cut them out, and the ranges behind them go on. -/
theorem rangePieces_fields [Memory] (fields : List Field) (index : Nat) (more : List ByteRange) :
    rangePieces (front ++ (Field.packed fields ++ back)) index
        (Field.ranges front.length fields ++ more) =
      (fields.map Field.piece ++
          (rangePieces (front ++ (Field.packed fields ++ back)) (index + fields.length) more).1,
        (rangePieces (front ++ (Field.packed fields ++ back)) (index + fields.length) more).2) := by
  induction fields generalizing front index with
  | nil => rfl
  | cons f rest ih =>
    have hrest := @ih (front ++ f.content.bytes) (index + 1)
    rw [List.append_assoc, List.length_append, f.content.length_bytes] at hrest
    rw [Field.packed, List.append_assoc, Field.ranges, List.cons_append, rangePieces,
      rangePiece_field]
    dsimp only
    rw [hrest, List.map_cons, List.cons_append, List.length_cons, Nat.add_assoc,
      Nat.add_comm 1 rest.length]

/-- Data that may be missing is cut out, empty or not. -/
theorem rangePiece_optional [Memory] {name : String} (hname : Text.nonBlank? name = some name)
    (index : Nat) :
    rangePiece (front ++ back) index (optionalBytesFrom front.length name) =
      .ok (rawPiece name back) := by
  unfold rangePiece optionalBytesFrom ByteRange.listedName
  dsimp only [Option.bind_some, Option.bind_none]
  rw [hname]
  cases back with
  | nil =>
    cases front with
    | nil => rfl
    | cons b front =>
      have hout : ¬Payload.IsWithin (b :: front ++ []).length (b :: front).length none := by
        simp
      obtain ⟨edge, offset, herror⟩ := Payload.exists_extract_error hout
      rw [herror _ rfl]
      rfl
  | cons b back =>
    rw [extract_behind (List.length_pos_of_ne_nil (List.cons_ne_nil b back))]
    rfl

/-- Everything behind the fields is cut out, if there is something. -/
theorem rangePiece_rest [Memory] {name : String} (hname : Text.nonBlank? name = some name)
    (hne : 0 < back.length) (index : Nat) :
    rangePiece (front ++ back) index (bytesFrom front.length name) =
      .ok (rawPiece name back) := by
  unfold rangePiece bytesFrom ByteRange.listedName
  dsimp only [Option.bind_some, Option.bind_none]
  rw [hname, extract_behind hne]
  rfl

end RollupInput.Portals
