import Mathlib.Data.List.Forall2
import RollupInput.Proofs.Abi.Label
import RollupInput.Proofs.Abi.Reading
import RollupInput.Proofs.Abi.Room
import RollupInput.Proofs.Abi.Success

/-!
# Decoding undoes encoding

Decoding the canonical encoding of values of a parameter list gives the values back, with names on
exactly the tuples whose fields all have names, wherever there is room for the values. Room can be
lacking in two ways: the types alone ask for more cells than memory gives, or the values take more
in all than may be taken. Then, and only then, decoding fails, and the main theorem says with which
fault. The memory can be any; one that gives twice the cells of the types is enough for them.
-/

namespace RollupInput.Abi

/-- Whether decoding the encoding of values gives the values, labelled. -/
def ReadsBack [Memory] (params : List Param) (vs : List Value) : Prop :=
  ∃ ws, decodeValues params (encodeParams (params.map Param.type) vs) = .ok ws ∧
    ws.map Value.plain = vs ∧ List.Forall₂ (fun p w => Labelled p.components w) params ws

/-- Values that a parameter list can be given: there is a parameter, no type has an empty part or
nests deeper than containers open, and the encoding has a size of 64 bits. -/
structure Encodable (params : List Param) (vs : List Value) : Prop where
  /-- There is a parameter. -/
  nonempty : params ≠ []
  /-- No type holds an array of no elements or a tuple of no fields. -/
  solid : AbiType.allSolid (params.map Param.type) = true
  /-- No type nests deeper than containers open. -/
  shallow : AbiType.mostOpenings (params.map Param.type) ≤ maxDepth
  /-- The values are of the types. -/
  typed : HaveTypes (params.map Param.type) vs
  /-- The size of the encoding is a 64 bit number. -/
  sized : (encodeParams (params.map Param.type) vs).length < wordLimit

/-- What decoding an encoding comes to: a shortage of the types comes first, then the limit on the
room that the values take, and otherwise the values are there. -/
theorem decode_encodeParams [Memory] {types : List AbiType} {vs : List Value} (hne : types ≠ [])
    (hs : AbiType.allSolid types = true) (hd : AbiType.mostOpenings types ≤ maxDepth)
    (ht : HaveTypes types vs) (hlen : (encodeParams types vs).length < wordLimit) :
    decode types (encodeParams types vs) =
      match AbiType.firstShortage 0 types with
      | some shortage => .error (.noRoom shortage)
      | none => if maxRoom < roomOf types vs then .error .tooLarge else .ok vs := by
  have hleast := leastWordsSum_le_length types vs ht
  have hmany : ¬(encodeParams types vs).length / wordBytes < AbiType.leastWordsSum types := by
    rw [Nat.not_lt]
    exact (Nat.le_div_iff_mul_le (by decide)).mpr (by rwa [Nat.mul_comm])
  have hread : readEach 0 (fieldReaders (encodeParams types vs).toArray 0 types) 0 =
      ⟨roomOf types vs, .ok vs⟩ :=
    readEach_of_allPlaced hlen types vs 0 0 0 hs ht hd (allPlaced_of_layOut (StandsAt.whole _))
  rw [decode, AbiType.allEmpty_eq_false types hne hs, if_neg Bool.false_ne_true, if_neg hmany,
    hread]
  rfl

/-- Encodings of values pass the comparison with the head, so decoding them is up to their types
and what is read. -/
theorem decodeValues_of_encodable [Memory] {params : List Param} {vs : List Value}
    (h : Encodable params vs) :
    decodeValues params (encodeParams (params.map Param.type) vs) =
      match decode (params.map Param.type) (encodeParams (params.map Param.type) vs) with
      | .error e => .error (.misfit (Param.listing params)
          (encodeParams (params.map Param.type) vs).length e.message)
      | .ok values => .ok (List.zipWith (fun v (p : Param) => label p.components v) values params) := by
  have hlen := length_layOut (partsOf (params.map Param.type) vs)
  have hsized : (layOut (partsOf (params.map Param.type) vs)).length < wordLimit := h.sized
  rw [headSize_partsOf h.typed] at hlen
  have hhides := AbiType.anyHidesOverflow_of_filled _ (AbiType.allFilled_of_solid _ h.solid)
  have hhead := (Param.headBytes_eq_some_iff params).mpr ⟨hhides, by omega, rfl⟩
  refine decodeValues_of_headBytes h.nonempty hhead ?_
  unfold encodeParams
  omega

/-- Labelling values one for one keeps them, and labels them. -/
theorem labelled_zipWith_label {params : List Param} {vs : List Value}
    (h : HaveTypes (params.map Param.type) vs) :
    (List.zipWith (fun v (p : Param) => label p.components v) vs params).map Value.plain = vs ∧
      List.Forall₂ (fun p w => Labelled p.components w) params
        (List.zipWith (fun v (p : Param) => label p.components v) vs params) := by
  induction params generalizing vs with
  | nil =>
    cases vs with
    | nil => exact ⟨rfl, .nil⟩
    | cons v vs => exact False.elim h
  | cons p params ih =>
    obtain ⟨w, ws, rfl, hw, hws⟩ := haveTypes_cons h
    have hplain := plain_of_hasType p.type w hw
    obtain ⟨hmap, hall⟩ := ih hws
    rw [List.zipWith_cons_cons, List.map_cons, hmap, plain_label, hplain]
    exact ⟨rfl, .cons (labelled_label p.components w hplain) hall⟩

variable {params : List Param} {vs : List Value}

/-- Types without room for their arrays of fixed size are not decoded. -/
theorem decodeValues_of_shortage [Memory] (h : Encodable params vs) {shortage : Shortage}
    (hroom : AbiType.firstShortage 0 (params.map Param.type) = some shortage) :
    decodeValues params (encodeParams (params.map Param.type) vs) =
      .error (.misfit (Param.listing params) (encodeParams (params.map Param.type) vs).length
        (Misfit.noRoom shortage).message) := by
  have hne : params.map Param.type ≠ [] := by simpa using h.nonempty
  rw [decodeValues_of_encodable h,
    decode_encodeParams hne h.solid h.shallow h.typed h.sized, hroom]

/-- Values that take too much room are not decoded. -/
theorem decodeValues_of_tooLarge [Memory] (h : Encodable params vs)
    (hroom : AbiType.firstShortage 0 (params.map Param.type) = none)
    (hlarge : maxRoom < roomOf (params.map Param.type) vs) :
    decodeValues params (encodeParams (params.map Param.type) vs) =
      .error (.misfit (Param.listing params) (encodeParams (params.map Param.type) vs).length
        Misfit.tooLarge.message) := by
  have hne : params.map Param.type ≠ [] := by simpa using h.nonempty
  rw [decodeValues_of_encodable h,
    decode_encodeParams hne h.solid h.shallow h.typed h.sized, hroom]
  dsimp only
  rw [if_pos hlarge]

/-- Values for which there is room are read back. -/
theorem readsBack_of_room [Memory] (h : Encodable params vs)
    (hroom : AbiType.firstShortage 0 (params.map Param.type) = none)
    (hsmall : roomOf (params.map Param.type) vs ≤ maxRoom) : ReadsBack params vs := by
  have hne : params.map Param.type ≠ [] := by simpa using h.nonempty
  have hdecode := decodeValues_of_encodable h
  rw [decode_encodeParams hne h.solid h.shallow h.typed h.sized, hroom] at hdecode
  dsimp only at hdecode
  rw [if_neg (Nat.not_lt.mpr hsmall)] at hdecode
  exact ⟨_, hdecode, labelled_zipWith_label h.typed⟩

/-- Values that are not decoded are not read back. -/
theorem not_readsBack_of_error [Memory] {e : DecodeFault}
    (h : decodeValues params (encodeParams (params.map Param.type) vs) = .error e) :
    ¬ReadsBack params vs := by
  rintro ⟨ws, hok, -⟩
  rw [h] at hok
  cases hok

/-- Decoding undoes encoding in any memory, wherever there is room: if the types run into no
shortage of cells, and the values take no more room than there is, then decoding their encoding
gives the values, labelled. There is no shortage where memory gives twice the cells of the types.
Otherwise decoding fails for want of that room; only of types that exhaust the memory, which stops
the program, nothing is said. -/
theorem decodeValues_encodeParams [Memory] (h : Encodable params vs) :
    (AbiType.firstShortage 0 (params.map Param.type) = none →
      roomOf (params.map Param.type) vs ≤ maxRoom → ReadsBack params vs) ∧
    (Memory.Gives (2 * AbiType.cellsSum (params.map Param.type)) →
      AbiType.firstShortage 0 (params.map Param.type) = none) ∧
    (∀ shortage, shortage ≠ .exhausted →
      AbiType.firstShortage 0 (params.map Param.type) = some shortage →
      decodeValues params (encodeParams (params.map Param.type) vs) =
        .error (.misfit (Param.listing params) (encodeParams (params.map Param.type) vs).length
          (Misfit.noRoom shortage).message)) ∧
    (AbiType.firstShortage 0 (params.map Param.type) = none →
      maxRoom < roomOf (params.map Param.type) vs →
      decodeValues params (encodeParams (params.map Param.type) vs) =
        .error (.misfit (Param.listing params) (encodeParams (params.map Param.type) vs).length
          Misfit.tooLarge.message)) := by
  refine ⟨?_, ?_, ?_, ?_⟩
  · intro hroom hsmall
    exact readsBack_of_room h hroom hsmall
  · intro hgives
    refine AbiType.firstShortage_of_gives _ (AbiType.allFilled_of_solid _ h.solid) ?_
    rwa [Nat.zero_add]
  · intro shortage _ hroom
    exact decodeValues_of_shortage h hroom
  · intro hroom hlarge
    exact decodeValues_of_tooLarge h hroom hlarge

/-- Arrays of named pairs of a number and a byte string, then two texts: dynamic parts inside
dynamic parts, and names at two depths. -/
def sampleParams : List Param :=
  [⟨some "orders", "(uint256 id, bytes data)[]", .array (.tuple [.uint 256, .bytes]),
      [⟨some "id", "uint256", .uint 256, []⟩, ⟨some "data", "bytes", .bytes, []⟩]⟩,
    ⟨none, "string[2]", .fixedArray .string 2, []⟩]

/-- Values for the sample parameters. -/
def sampleValues : List Value :=
  [.array [.tuple [.uint 7, .bytes [1, 2, 3]], .tuple [.uint 8, .bytes []]],
    .array [.string "a", .string "é"]]

attribute [local instance] Memory.usual

/-- The sample values are read back in the usual memory, which has room enough for them. -/
theorem sampleValues_readsBack : Encodable sampleParams sampleValues ∧
    Memory.Gives (2 * AbiType.cellsSum (sampleParams.map Param.type)) ∧
    AbiType.firstShortage 0 (sampleParams.map Param.type) = none ∧
    roomOf (sampleParams.map Param.type) sampleValues ≤ maxRoom ∧
    ReadsBack sampleParams sampleValues := by
  have h : Encodable sampleParams sampleValues :=
    { nonempty := by decide
      solid := by decide
      shallow := by decide
      typed := by simp [sampleParams, sampleValues, HaveTypes, HasType]
      sized := by decide +kernel }
  have hgives : Memory.Gives (2 * AbiType.cellsSum (sampleParams.map Param.type)) :=
    { addressable := by decide
      granted := by decide
      held := by decide }
  have hsmall : roomOf (sampleParams.map Param.type) sampleValues ≤ maxRoom := by decide
  obtain ⟨hreads, henough, -, -⟩ := decodeValues_encodeParams h
  exact ⟨h, hgives, henough hgives, hsmall, hreads (henough hgives) hsmall⟩

/-- An array of any size of arrays of 2^60 numbers. -/
def wideParams : List Param :=
  [⟨none, "uint256[1152921504606846976][]",
    .array (.fixedArray (.uint 256) 1152921504606846976), []⟩]

/-- A byte string. -/
def blobParams : List Param := [⟨none, "bytes", .bytes, []⟩]

/-- The empty array of arrays of 2^60 numbers can be encoded. -/
theorem wide_encodable : Encodable wideParams [.array []] where
  nonempty := by decide
  solid := by decide
  shallow := by decide
  typed := by simp [wideParams, HaveTypes, HasType]
  sized := by decide +kernel

/-- A byte string can be encoded if its length leaves some bytes of a 64 bit size. -/
theorem blob_encodable {bs : List UInt8} (h : bs.length + 3 * wordBytes < wordLimit) :
    Encodable blobParams [.bytes bs] where
  nonempty := by decide
  solid := by decide
  shallow := by decide
  typed := ⟨trivial, trivial⟩
  sized := by
    have hbytes := length_encode_bytes_le bs
    have hlen : (encodeParams (blobParams.map Param.type) [.bytes bs]).length =
        wordBytes + (encode .bytes (.bytes bs)).length := by
      have hnil : (layOut (partsOf [] [])).length = 0 := rfl
      unfold encodeParams blobParams
      rw [List.map_cons, List.map_nil, partsOf_cons, length_layOut_cons,
        size_partOf_of_dynamic rfl, hnil, Nat.add_zero]
    omega

/-- The room that a byte string takes is its length. -/
theorem roomOf_blob (bs : List UInt8) :
    roomOf (blobParams.map Param.type) [.bytes bs] = bs.length := by
  unfold blobParams
  rw [List.map_cons, List.map_nil, roomOf, room]
  rfl

/-- Not all values are read back, whatever the memory: there is no room for the empty array of
arrays of 2^60 numbers. Nor are all values that their types have room for: a byte string that is one
byte longer than the room is too large. -/
theorem not_forall_readsBack :
    (¬∃ _ : Memory, ∀ params vs, Encodable params vs → ReadsBack params vs) ∧
    ¬∃ _ : Memory, ∀ params vs, Encodable params vs →
      AbiType.firstShortage 0 (params.map Param.type) = none → ReadsBack params vs := by
  constructor
  · rintro ⟨memory, hall⟩
    have hroom : AbiType.firstShortage 0 (wideParams.map Param.type) = some .unaddressable := by rfl
    exact not_readsBack_of_error (decodeValues_of_shortage wide_encodable hroom)
      (hall wideParams [.array []] wide_encodable)
  · rintro ⟨memory, hall⟩
    have hlen : (List.replicate (maxRoom + 1) (0 : UInt8)).length = maxRoom + 1 :=
      List.length_replicate
    generalize List.replicate (maxRoom + 1) (0 : UInt8) = bs at hlen
    have hblob : Encodable blobParams [.bytes bs] := blob_encodable (by rw [hlen]; decide)
    have hroom : AbiType.firstShortage 0 (blobParams.map Param.type) = none := rfl
    have hlarge : maxRoom < roomOf (blobParams.map Param.type) [.bytes bs] := by
      rw [roomOf_blob, hlen]
      exact Nat.lt_succ_self maxRoom
    exact not_readsBack_of_error (decodeValues_of_tooLarge hblob hroom hlarge)
      (hall blobParams [.bytes bs] hblob hroom)

end RollupInput.Abi
