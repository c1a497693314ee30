import RollupInput.Proofs.Decoding.Distinct
import RollupInput.Proofs.Portals.Added
import RollupInput.Proofs.Portals.Cutting
import RollupInput.Proofs.Portals.Selection

/-!
# Decoding what the portals send

The specification of a portal gives back the components of every message under their declared
names. A message that ends with a parameter encoding is decoded if its values fit the room that
there is, and fails with the limit on that room otherwise; the other messages are always decoded.
-/

namespace RollupInput.Portals

open Abi Decoding

namespace Message

/-- The fields of fixed size. -/
def fields : Message → List Field
  | .ether sender amount _ => [⟨"sender", .account sender, rfl⟩, ⟨"amount", .number amount, rfl⟩]
  | .erc20 success token sender amount _ =>
    [⟨"success", .flag success, rfl⟩, ⟨"tokenAddress", .account token, rfl⟩,
      ⟨"from", .account sender, rfl⟩, ⟨"amount", .number amount, rfl⟩]
  | .erc721 token sender tokenId _ _ =>
    [⟨"tokenAddress", .account token, rfl⟩, ⟨"from", .account sender, rfl⟩,
      ⟨"tokenId", .number tokenId, rfl⟩]
  | .erc1155Single token sender tokenId amount _ _ =>
    [⟨"tokenAddress", .account token, rfl⟩, ⟨"from", .account sender, rfl⟩,
      ⟨"tokenId", .number tokenId, rfl⟩, ⟨"amount", .number amount, rfl⟩]
  | .erc1155Batch token sender .. =>
    [⟨"tokenAddress", .account token, rfl⟩, ⟨"from", .account sender, rfl⟩]
  | .relay application => [⟨"dappAddress", .account application, rfl⟩]

/-- What stands behind the fields. -/
def ending : Message → List UInt8
  | .ether _ _ data | .erc20 _ _ _ _ data => data
  | .erc721 _ _ _ base exec | .erc1155Single _ _ _ _ base exec =>
    encodeParams layerTypes [.bytes base, .bytes exec]
  | .erc1155Batch _ _ tokenIds amounts base exec =>
    encodeParams batchTypes (batchValues tokenIds amounts base exec)
  | .relay _ => []

/-- The fields stand in front of the ending. -/
theorem packed_eq (m : Message) : m.packed = Field.packed m.fields ++ m.ending := by
  cases m <;> simp [packed, fields, ending, Field.packed, Content.bytes]

/-- The ending is not longer than the whole. -/
theorem length_ending_le (m : Message) : m.ending.length ≤ m.packed.length := by
  rw [packed_eq, List.length_append]
  exact Nat.le_add_left ..

end Message

variable {spec : Specification} {fields : List Field} {back : List UInt8}

/-- Without a target and with nothing behind the fields, a decode ends with the fields. -/
theorem run_with_nothing_behind [Memory] {declarations : List String}
    (hmode : spec.mode = .params ⟨declarations, some (Field.ranges 0 fields), none⟩)
    (hne : Field.ranges 0 fields ≠ []) :
    run spec (Field.packed fields) =
      finished spec (Field.packed fields) (fields.map Field.piece)
        (fold none (fields.map Field.piece)) := by
  have hfields := @rangePieces_fields [] [] _ fields 0 []
  rw [List.nil_append, List.append_nil, List.length_nil, List.append_nil, rangePieces,
    List.append_nil] at hfields
  rw [run_of_params hmode, cut_of_ranges rfl hne, hfields]
  unfold unwrap
  dsimp only
  rw [List.append_nil]

/-- Without a target and with data behind the fields that may be missing, a decode ends with the
fields and the data. -/
theorem run_with_data_behind [Memory] {declarations : List String} {name : String}
    (hmode : spec.mode = .params ⟨declarations,
      some (Field.ranges 0 fields ++ [optionalBytesFrom (Field.size fields) name]), none⟩)
    (hname : Text.nonBlank? name = some name) :
    run spec (Field.packed fields ++ back) =
      finished spec (Field.packed fields ++ back)
        (fields.map Field.piece ++ [rawPiece name back])
        (fold none (fields.map Field.piece ++ [rawPiece name back])) := by
  have hlast := @rangePiece_optional (Field.packed fields) back _ name hname fields.length
  rw [Field.length_packed] at hlast
  have hends : rangePieces (Field.packed fields ++ back) fields.length
      [optionalBytesFrom (Field.size fields) name] = ([rawPiece name back], none) := by
    rw [rangePieces, hlast]
    rfl
  have hfields := @rangePieces_fields [] back _ fields 0 [optionalBytesFrom (Field.size fields) name]
  rw [List.nil_append, List.length_nil, Nat.zero_add, hends] at hfields
  rw [run_of_params hmode, cut_of_ranges rfl (by simp), hfields]
  unfold unwrap
  dsimp only
  rw [List.append_nil]

/-- With everything behind the fields as the target, a decode ends with the fields and the pieces
of what is behind them. -/
theorem run_with_rest_as_target [Memory] {declarations : List String} {target : String}
    (hmode : spec.mode = .params ⟨declarations,
      some (Field.ranges 0 fields ++ [bytesFrom (Field.size fields) target]), some target⟩)
    (htarget : Text.nonBlank? target = some target)
    (hnames : ((fields.map Field.piece).find? fun p => p.name == target) = none)
    (hback : 0 < back.length) :
    run spec (Field.packed fields ++ back) =
      match paramPieces declarations back with
      | .error e => failed spec (Field.packed fields ++ back)
          (fields.map Field.piece ++ [rawPiece target back])
          (.targetFault target declarations e)
      | .ok more => finished spec (Field.packed fields ++ back)
          (fields.map Field.piece ++ [rawPiece target back] ++ more)
          (fold (some target) (fields.map Field.piece ++ more)) := by
  have hrest := @rangePiece_rest (Field.packed fields) back _ target htarget hback fields.length
  rw [Field.length_packed] at hrest
  have hends : rangePieces (Field.packed fields ++ back) fields.length
      [bytesFrom (Field.size fields) target] = ([rawPiece target back], none) := by
    rw [rangePieces, hrest]
    rfl
  have hfields := @rangePieces_fields [] back _ fields 0 [bytesFrom (Field.size fields) target]
  rw [List.nil_append, List.length_nil, Nat.zero_add, hends] at hfields
  have hfold : ∀ more : List Piece,
      fold (some target) (fields.map Field.piece ++ [rawPiece target back] ++ more) =
        fold (some target) (fields.map Field.piece ++ more) := by
    intro more
    have hself : kept (some target) [rawPiece target back] = [] := by
      simp [kept, rawPiece]
    unfold fold
    unfold kept at hself ⊢
    rw [List.filter_append, List.filter_append, hself, List.append_nil, ← List.filter_append]
  rw [run_of_params hmode, cut_of_ranges rfl (by simp), hfields]
  unfold unwrap
  dsimp only
  have hfind : [rawPiece target back].find?
      (fun p => p.name == target) = some (rawPiece target back) :=
    List.find?_cons_of_pos (beq_self_eq_true target)
  have hpart : (rawPiece target back).part = back := rfl
  rw [List.find?_append, hnames, Option.none_or, hfind]
  dsimp only
  rw [hpart]
  cases paramPieces declarations back with
  | error e => rfl
  | ok more =>
    dsimp only
    rw [hfold]

/-- Whether a message is given back by the specification of its portal: the result has its
components, in order and under their names, and nothing else. -/
structure IsGivenBack [Memory] (m : Message) : Prop where
  /-- The decode is resolved. -/
  resolved : (run m.portal.specification m.packed).isResolved = true
  /-- There is no error. -/
  noError : (run m.portal.specification m.packed).error = none
  /-- The result holds the components. -/
  entries_eq : (run m.portal.specification m.packed).result.entries = m.components

/-- Whether a message is not decoded because its values take more room than there is. -/
def LacksRoom [Memory] (m : Message) : Prop :=
  ∃ declarations listing size, (run m.portal.specification m.packed).error =
    some (.targetFault "data" declarations (.misfit listing size Misfit.tooLarge.message))

/-- The result of pieces that are the components holds just these. No piece has the name of the
target, which can be no other than the encoded part. -/
theorem entries_fold_of_components {m : Message} {target : Option String} {pieces : List Piece}
    (htarget : ∀ name, target = some name → name = "data")
    (hentries : (pieces.map fun p => (p.name, p.value)) = m.components) :
    (fold target pieces).entries = m.components := by
  have hother : ∀ p ∈ pieces, target ≠ some p.name := by
    intro p hp heq
    refine m.data_notMem_components ?_
    rw [← htarget p.name heq, ← hentries, List.map_map]
    exact List.mem_map_of_mem hp
  have hnodup := m.nodup_components
  unfold fold
  rw [(kept_eq_self_iff target pieces).mpr hother, hentries]
  exact NamedValues.entries_insertAll_of_nodup hnodup

/-- A finished decode gives a message back if its pieces are the components. -/
theorem isGivenBack_of_finished [Memory]
    {m : Message} {pieces kept : List Piece} {target : Option String}
    (hrun : run m.portal.specification (Field.packed m.fields ++ m.ending) =
      finished m.portal.specification (Field.packed m.fields ++ m.ending) pieces
        (fold target kept))
    (htarget : ∀ name, target = some name → name = "data")
    (hentries : (kept.map fun p => (p.name, p.value)) = m.components) : IsGivenBack m := by
  rw [← m.packed_eq] at hrun
  refine ⟨?_, ?_, ?_⟩
  · rw [hrun]
    rfl
  · rw [hrun]
    rfl
  · rw [hrun]
    exact entries_fold_of_components htarget hentries

/-- A message that ends with data that may be missing is given back. -/
theorem isGivenBack_of_data [Memory] {m : Message} {declarations : List String} {name : String}
    (hmode : m.portal.specification.mode = .params ⟨declarations,
      some (Field.ranges 0 m.fields ++ [optionalBytesFrom (Field.size m.fields) name]), none⟩)
    (hname : Text.nonBlank? name = some name)
    (hentries : ((m.fields.map Field.piece ++ [rawPiece name m.ending]).map
      fun p => (p.name, p.value)) = m.components) : IsGivenBack m :=
  isGivenBack_of_finished (run_with_data_behind hmode hname) (fun _ h => nomatch h) hentries

/-- A message of nothing but fields is given back. -/
theorem isGivenBack_of_fields [Memory] {m : Message} {declarations : List String}
    (hmode : m.portal.specification.mode =
      .params ⟨declarations, some (Field.ranges 0 m.fields), none⟩)
    (hne : Field.ranges 0 m.fields ≠ []) (hending : m.ending = [])
    (hentries : ((m.fields.map Field.piece).map fun p => (p.name, p.value)) = m.components) :
    IsGivenBack m := by
  have hrun := run_with_nothing_behind hmode hne
  rw [← List.append_nil (Field.packed _), ← hending] at hrun
  exact isGivenBack_of_finished hrun (fun _ h => nomatch h) hentries

/-- A message that ends with a parameter encoding is given back, or lacks room. -/
theorem outcome_of_encoded [Memory] {m : Message} {declarations : List String} {listing : String}
    {size : Nat} (more : List Piece)
    (hmode : m.portal.specification.mode = .params ⟨declarations,
      some (Field.ranges 0 m.fields ++ [bytesFrom (Field.size m.fields) "data"]), some "data"⟩)
    (hfields : ((m.fields.map Field.piece).find? fun p => p.name == "data") = none)
    (hending : 0 < m.ending.length)
    (hpieces : paramPieces declarations m.ending =
      if maxRoom < m.room then .error (.misfit listing size Misfit.tooLarge.message) else .ok more)
    (hentries : ((m.fields.map Field.piece ++ more).map fun p => (p.name, p.value)) =
      m.components) :
    (m.room ≤ maxRoom → IsGivenBack m) ∧ (maxRoom < m.room → LacksRoom m) := by
  have hrun := run_with_rest_as_target hmode rfl hfields hending
  rw [hpieces] at hrun
  constructor
  · intro hsmall
    rw [if_neg (Nat.not_lt.mpr hsmall)] at hrun
    exact isGivenBack_of_finished hrun (fun _ h => (Option.some.inj h).symm) hentries
  · intro hlarge
    rw [if_pos hlarge, ← m.packed_eq] at hrun
    refine ⟨declarations, listing, size, ?_⟩
    rw [hrun]
    rfl

/-- An encoding of types of some words is not empty. -/
theorem length_encodeParams_pos {types : List AbiType} {vs : List Value}
    (h : HaveTypes types vs) (hpos : 0 < AbiType.leastWordsSum types) :
    0 < (encodeParams types vs).length := by
  have hleast := leastWordsSum_le_length types vs h
  unfold encodeParams wordBytes at *
  omega

/-- Every message with a payload of 64 bit size is given back if its values fit the room that
there is, and otherwise lacks it. -/
theorem outcome_of_message [Memory] (m : Message) (hsize : m.packed.length < wordLimit) :
    (m.room ≤ maxRoom → IsGivenBack m) ∧ (maxRoom < m.room → LacksRoom m) := by
  have hending : m.ending.length < wordLimit := Nat.lt_of_le_of_lt m.length_ending_le hsize
  have hnone : ¬maxRoom < 0 := Nat.not_lt_zero maxRoom
  cases m with
  | ether sender amount data =>
    exact ⟨fun _ => isGivenBack_of_data rfl rfl rfl, fun hlarge => absurd hlarge hnone⟩
  | erc20 success token sender amount data =>
    exact ⟨fun _ => isGivenBack_of_data rfl rfl rfl, fun hlarge => absurd hlarge hnone⟩
  | erc721 token sender tokenId base exec =>
    have hsome := length_encodeParams_pos (layers_encodable hending).typed (by decide)
    exact outcome_of_encoded (layerPieces base exec) rfl rfl hsome (paramPieces_layers hending) rfl
  | erc1155Single token sender tokenId amount base exec =>
    have hsome := length_encodeParams_pos (layers_encodable hending).typed (by decide)
    exact outcome_of_encoded (layerPieces base exec) rfl rfl hsome (paramPieces_layers hending) rfl
  | erc1155Batch token sender tokenIds amounts base exec =>
    have hsome := length_encodeParams_pos (batch_encodable hending).typed (by decide)
    exact outcome_of_encoded _ rfl rfl hsome (paramPieces_batch hending) rfl
  | relay application =>
    exact ⟨fun _ => isGivenBack_of_fields rfl (by simp [Message.fields, Field.ranges]) rfl rfl,
      fun hlarge => absurd hlarge hnone⟩

/-- The built-in specifications invert what the portals send and are selected for it. A message
whose values fit the room that there is is decoded to its components under their names, in order,
without the encoded part; a message whose values do not is refused for that. The sender of a portal
selects its specification, in whatever case the letters among the digits of its address are. -/
theorem messages_given_back [Memory] :
    (∀ m : Message, m.packed.length < wordLimit →
      (m.room ≤ maxRoom → IsGivenBack m ∧
        "data" ∉ (run m.portal.specification m.packed).result.keys) ∧
      (maxRoom < m.room → LacksRoom m)) ∧
    ∀ (p : Portal) (input : KnownInput) (sender : String), input.msgSender = some sender →
      IsSpelling p.address sender →
      Specification.choose? (some input) specifications = some p.specification := by
  refine ⟨?_, ?_⟩
  · intro m hsize
    refine ⟨?_, (outcome_of_message m hsize).2⟩
    intro hsmall
    have hback := (outcome_of_message m hsize).1 hsmall
    refine ⟨hback, ?_⟩
    unfold NamedValues.keys
    rw [hback.entries_eq]
    exact m.data_notMem_components
  · intro p input sender hsender hspelling
    exact choose?_of_isSpelling hsender hspelling

/-- An account of one byte again and again. -/
def sampleAccount (b : UInt8) : Account := ⟨List.replicate 20 b, List.length_replicate⟩

/-- A small number. -/
def sampleQuantity (n : Fin 256) : Quantity := ⟨n, Nat.lt_trans n.isLt (by decide)⟩

/-- A deposit of two kinds of tokens with some data. -/
def sampleMessage : Message :=
  .erc1155Batch (sampleAccount 1) (sampleAccount 2) [sampleQuantity 1, sampleQuantity 2]
    [sampleQuantity 10, sampleQuantity 20] [0xde, 0xad] []

attribute [local instance] Memory.usual

/-- The sample deposit is given back, and its portal is found by its address in lower case. -/
theorem sampleMessage_given_back : sampleMessage.packed.length < wordLimit ∧
    sampleMessage.room ≤ maxRoom ∧ IsGivenBack sampleMessage ∧
    IsSpelling Portal.erc1155Batch.address "0xedb53860a6b52bbb7561ad596416ee9965b055aa" ∧
    Specification.choose? (some ⟨some "0xedb53860a6b52bbb7561ad596416ee9965b055aa", none⟩)
      specifications = some erc1155BatchDeposit := by
  have hsize : sampleMessage.packed.length < wordLimit := by decide +kernel
  have hsmall : sampleMessage.room ≤ maxRoom := by decide
  have hspelling : IsSpelling Portal.erc1155Batch.address
      "0xedb53860a6b52bbb7561ad596416ee9965b055aa" :=
    ⟨"edb53860a6b52bbb7561ad596416ee9965b055aa".toList, by rfl, by decide +kernel⟩
  exact ⟨hsize, hsmall, ((messages_given_back.1 sampleMessage hsize).1 hsmall).1, hspelling,
    messages_given_back.2 .erc1155Batch _ _ rfl hspelling⟩

/-- A deposit of an ERC-721 token with some data. -/
def longMessage (bs : List UInt8) : Message :=
  .erc721 (sampleAccount 1) (sampleAccount 2) (sampleQuantity 3) bs []

/-- The sample deposit is longer than its data by a few words. -/
theorem length_longMessage_le (bs : List UInt8) :
    (longMessage bs).packed.length ≤ bs.length + 9 * wordBytes := by
  have hadded := length_layers_le bs []
  have hword : (sampleQuantity 3).word.length = wordBytes := length_wordOfNat _
  unfold longMessage Message.packed
  rw [List.length_append, List.length_append, List.length_append, (sampleAccount 1).length_eq,
    (sampleAccount 2).length_eq, hword]
  unfold wordBytes at *
  rw [List.length_nil] at hadded
  omega

/-- Data for which there is no room is not given back. -/
theorem not_isGivenBack_of_long [Memory] {bs : List UInt8} (hlarge : maxRoom < bs.length)
    (hsize : (longMessage bs).packed.length < wordLimit) : ¬IsGivenBack (longMessage bs) := by
  intro hback
  obtain ⟨declarations, listing, size, hfault⟩ := (outcome_of_message _ hsize).2 hlarge
  rw [hback.noError] at hfault
  cases hfault

/-- The mark in front of the digits is not a digit: with a mark in upper case, the address of a
portal does not select its specification. And not every message is given back: one with one byte
more than there is room for lacks that room. -/
theorem not_forall_given_back :
    (¬∀ (p : Portal) (sender : String), isSameButCase sender p.address = true →
      Specification.choose? (some ⟨some sender, none⟩) specifications = some p.specification) ∧
    ¬∀ m : Message, m.packed.length < wordLimit → IsGivenBack m := by
  constructor
  · intro hall
    have hsame : isSameButCase "0XFFDBE43D4C855BF7E0F105C400A50857F53AB044"
        Portal.ether.address = true := by decide +kernel
    have hnone : (Specification.choose?
        (some ⟨some "0XFFDBE43D4C855BF7E0F105C400A50857F53AB044", none⟩) specifications).isSome =
        false := by decide +kernel
    rw [hall .ether _ hsame] at hnone
    cases hnone
  · intro hall
    have hlen : (List.replicate (maxRoom + 1) (0 : UInt8)).length = maxRoom + 1 :=
      List.length_replicate
    generalize List.replicate (maxRoom + 1) (0 : UInt8) = bs at hlen
    have hsize : (longMessage bs).packed.length < wordLimit :=
      Nat.lt_of_le_of_lt (length_longMessage_le bs) (by rw [hlen]; decide)
    have hlarge : maxRoom < bs.length := by
      rw [hlen]
      exact Nat.lt_succ_self maxRoom
    exact not_isGivenBack_of_long hlarge hsize (hall (longMessage bs) hsize)

end RollupInput.Portals
