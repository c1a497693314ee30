import RollupInput.Proofs.Abi.RoundTrip
import RollupInput.Proofs.Declaration.Acceptance
import RollupInput.Proofs.Portals.Message
import RollupInput.Decoding.Run

/-!
# What is added to deposits

Deposits of tokens other than ERC-20 end with a parameter encoding. Its declarations are read as
the types of the encoding, and the pieces that it is decoded to are its values, wherever there is
room for them. There is none for values of more bytes in all than may be taken.
-/

namespace RollupInput.Portals

open Abi Declaration Decoding

/-- What the encoding of values is decoded to: the pieces of the values if there is room for them,
else the limit on the room. -/
theorem paramPieces_of_encodable [Memory] {declarations : List String} {params : List Param}
    {vs : List Value} (hparse : parse declarations = .ok params) (h : Encodable params vs)
    (hroom : AbiType.firstShortage 0 (params.map Param.type) = none) :
    paramPieces declarations (encodeParams (params.map Param.type) vs) =
      if maxRoom < roomOf (params.map Param.type) vs then
        .error (.misfit (Param.listing params) (encodeParams (params.map Param.type) vs).length
          Misfit.tooLarge.message)
      else
        .ok ((params.zip (List.zipWith (fun v (p : Param) => label p.components v) vs params)).mapIdx
          fun index p => { name := p.1.nonBlankName?.getD s!"params{index}",
                           part := p.2.asBytes?.getD [], decoded := some p.2 }) := by
  unfold paramPieces
  rw [hparse]
  dsimp only
  by_cases hlarge : maxRoom < roomOf (params.map Param.type) vs
  · rw [if_pos hlarge, decodeValues_of_tooLarge h hroom hlarge]
  · rw [if_neg hlarge, decodeValues_of_encodable h, decode_encodeParams
      (by simpa using h.nonempty) h.solid h.shallow h.typed h.sized, hroom]
    dsimp only
    rw [if_neg hlarge]

/-- The parameters of what is added to a deposit of tokens other than ERC-20. -/
def layerParams : List Param :=
  [⟨some "baseLayer", "bytes", .bytes, []⟩, ⟨some "execLayer", "bytes", .bytes, []⟩]

/-- The parameters of what ends a deposit of ERC-1155 tokens of several kinds. -/
def batchParams : List Param :=
  [⟨some "tokenIds", "uint256[]", .array (.uint 256), []⟩,
    ⟨some "amount", "uint256[]", .array (.uint 256), []⟩] ++ layerParams

/-- The declaration of the deposits of ERC-1155 tokens of several kinds. -/
def batchDeclaration : String := "uint[] tokenIds, uint[] amount, bytes baseLayer, bytes execLayer"

/-- A name with one blank in front of it, behind some suffixes. -/
def named (gap : List Char) (suffixes : List WrittenSuffix) (name : String) : Surroundings :=
  ⟨gap, suffixes, [], some (spaced name), []⟩

/-- What is added, as it is declared. -/
def writtenLayers (gap : List Char) : List Written :=
  [.elementary "bytes".toList (named gap [] "baseLayer"),
    .elementary "bytes".toList (named [' '] [] "execLayer")]

/-- What ends a batch, as it is declared. -/
def writtenBatch : List Written :=
  [.elementary "uint".toList (named [] [⟨[], none, []⟩] "tokenIds"),
    .elementary "uint".toList (named [' '] [⟨[], none, []⟩] "amount")] ++ writtenLayers [' ']

/-- The declaration of what is added is read. -/
theorem parse_layers : parse [layerDeclaration] = .ok layerParams :=
  eq_ok_of_toOption (@toOption_parse_of_known [writtenLayers []] layerParams
    (by simp [writtenLayers]) (by decide +kernel) (by rfl))

/-- The declaration of what ends a batch is read. -/
theorem parse_batch : parse [batchDeclaration] = .ok batchParams :=
  eq_ok_of_toOption (@toOption_parse_of_known [writtenBatch] batchParams
    (by simp [writtenBatch]) (by decide +kernel) (by rfl))

/-- What is added can be encoded. -/
theorem layers_encodable {base exec : List UInt8}
    (hsize : (encodeParams layerTypes [.bytes base, .bytes exec]).length < wordLimit) :
    Encodable layerParams [.bytes base, .bytes exec] where
  nonempty := by decide
  solid := by decide
  shallow := by decide
  typed := ⟨trivial, trivial, trivial⟩
  sized := hsize

/-- What is added takes two words for each of the byte strings besides its place and padding. -/
theorem length_layers_le (base exec : List UInt8) :
    (encodeParams layerTypes [.bytes base, .bytes exec]).length ≤
      base.length + exec.length + 6 * wordBytes := by
  have hbase := length_encode_bytes_le base
  have hexec := length_encode_bytes_le exec
  have hnil : (layOut (partsOf [] [])).length = 0 := rfl
  unfold encodeParams layerTypes
  rw [partsOf_cons, partsOf_cons, length_layOut_cons, length_layOut_cons,
    size_partOf_of_dynamic rfl, size_partOf_of_dynamic rfl, hnil]
  omega

/-- Quantities are numbers of a word. -/
theorem hasType_decoded (qs : List Quantity) :
    HasType (.array (.uint 256)) (.array (qs.map Quantity.decoded)) := by
  rw [HasType]
  intro v hv
  obtain ⟨q, -, rfl⟩ := List.mem_map.mp hv
  exact q.lt

/-- What ends a batch can be encoded. -/
theorem batch_encodable {tokenIds amounts : List Quantity} {base exec : List UInt8}
    (hsize : (encodeParams batchTypes (batchValues tokenIds amounts base exec)).length <
      wordLimit) :
    Encodable batchParams (batchValues tokenIds amounts base exec) where
  nonempty := by decide
  solid := by decide
  shallow := by decide
  typed := ⟨hasType_decoded tokenIds, hasType_decoded amounts, trivial, trivial, trivial⟩
  sized := hsize

/-- Numbers take no room besides their cells. -/
theorem room_decoded (qs : List Quantity) :
    room (.array (.uint 256)) (.array (qs.map Quantity.decoded)) = qs.length * cellBytes := by
  have hcell : (AbiType.uint 256).cells = 1 := by rfl
  have hone : ∀ q : Quantity, room (.uint 256) q.decoded = 0 := by
    intro q
    rfl
  have hnone : roomEach (fun v => room (.uint 256) v) (qs.map Quantity.decoded) = 0 := by
    induction qs with
    | nil => rfl
    | cons q qs ih => rw [List.map_cons, roomEach, ih, hone]
  rw [room, hnone, List.length_map, hcell, Nat.mul_one, Nat.add_zero]

/-- Numbers have no fields to label. -/
theorem label_decoded (qs : List Quantity) :
    label [] (.array (qs.map Quantity.decoded)) = .array (qs.map Quantity.decoded) := by
  rw [label]
  congr 1
  induction qs with
  | nil => rfl
  | cons q qs ih =>
    rw [List.map_cons, labelAll, ih]
    rfl

/-- The pieces of what is added. -/
def layerPieces (base exec : List UInt8) : List Piece :=
  [⟨"baseLayer", base, some (.bytes base)⟩, ⟨"execLayer", exec, some (.bytes exec)⟩]

/-- What is added is decoded where there is room. -/
theorem paramPieces_layers [Memory] {base exec : List UInt8}
    (hsize : (encodeParams layerTypes [.bytes base, .bytes exec]).length < wordLimit) :
    paramPieces [layerDeclaration] (encodeParams layerTypes [.bytes base, .bytes exec]) =
      if maxRoom < base.length + exec.length then
        .error (.misfit (Param.listing layerParams)
          (encodeParams layerTypes [.bytes base, .bytes exec]).length Misfit.tooLarge.message)
      else .ok (layerPieces base exec) := by
  have hpieces := paramPieces_of_encodable parse_layers (layers_encodable hsize) rfl
  have hroom : roomOf (layerParams.map Param.type) [.bytes base, .bytes exec] =
      base.length + exec.length := by
    simp [layerParams, roomOf, room]
  rw [hroom] at hpieces
  exact hpieces

/-- What ends a batch is decoded where there is room. -/
theorem paramPieces_batch [Memory] {tokenIds amounts : List Quantity} {base exec : List UInt8}
    (hsize : (encodeParams batchTypes (batchValues tokenIds amounts base exec)).length <
      wordLimit) :
    paramPieces [batchDeclaration]
        (encodeParams batchTypes (batchValues tokenIds amounts base exec)) =
      if maxRoom < tokenIds.length * cellBytes + amounts.length * cellBytes + base.length +
          exec.length then
        .error (.misfit (Param.listing batchParams)
          (encodeParams batchTypes (batchValues tokenIds amounts base exec)).length
          Misfit.tooLarge.message)
      else .ok ([⟨"tokenIds", [], some (.array (tokenIds.map Quantity.decoded))⟩,
        ⟨"amount", [], some (.array (amounts.map Quantity.decoded))⟩] ++
          layerPieces base exec) := by
  have hpieces := paramPieces_of_encodable parse_batch (batch_encodable hsize) rfl
  have hroom : roomOf (batchParams.map Param.type) (batchValues tokenIds amounts base exec) =
      tokenIds.length * cellBytes + amounts.length * cellBytes + base.length + exec.length := by
    have htypes : batchParams.map Param.type = batchTypes := rfl
    have hbytes : ∀ bs, room .bytes (.bytes bs) = bs.length := fun bs => by rw [room]
    rw [htypes, batchTypes, batchValues, roomOf, roomOf, roomOf, roomOf, roomOf, room_decoded,
      room_decoded, hbytes, hbytes, Nat.add_zero, ← Nat.add_assoc, ← Nat.add_assoc]
    · simp
  have hlabels : List.zipWith (fun v (p : Param) => label p.components v)
      (batchValues tokenIds amounts base exec) batchParams =
      batchValues tokenIds amounts base exec := by
    unfold batchValues batchParams layerParams
    simp only [List.cons_append, List.nil_append, List.zipWith_cons_cons, List.zipWith_nil_right,
      label_decoded]
    rfl
  rw [hroom, hlabels] at hpieces
  exact hpieces

end RollupInput.Portals
