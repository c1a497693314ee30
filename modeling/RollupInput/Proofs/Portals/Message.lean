import RollupInput.Portals
import RollupInput.Proofs.Abi.Encoding

/-!
# What the portals send

A portal passes a deposit on as a packed encoding: accounts in their twenty bytes and numbers in a
word, one behind the other without lengths or padding, and whatever the depositor adds at the end.
Token deposits other than ERC-20 end with the parameter encoding of what is added. The encodings
are specification only; nothing that decodes calls them.
-/

namespace RollupInput.Portals

open Abi

/-- The twenty bytes of an account. -/
structure Account where
  /-- The bytes. -/
  bytes : List UInt8
  /-- There are twenty of them. -/
  length_eq : bytes.length = 20

/-- A number of a word. -/
structure Quantity where
  /-- The number. -/
  value : Nat
  /-- It fits a word. -/
  lt : value < Nat.pow 2 256

/-- The word of a quantity. -/
def Quantity.word (q : Quantity) : List UInt8 := wordOfNat q.value

/-- The quantity as a decoded value. -/
def Quantity.decoded (q : Quantity) : Value := .uint q.value

/-- A contract whose inputs have a specification of their own. -/
inductive Portal where
  /-- For ether. -/
  | ether
  /-- For ERC-20 tokens. -/
  | erc20
  /-- For ERC-721 tokens. -/
  | erc721
  /-- For single ERC-1155 tokens. -/
  | erc1155Single
  /-- For batches of ERC-1155 tokens. -/
  | erc1155Batch
  /-- The relay of the address of the application. -/
  | relay
  deriving DecidableEq

namespace Portal

/-- The address, as it is usually written. -/
def address : Portal → String
  | .ether => etherPortal
  | .erc20 => erc20Portal
  | .erc721 => erc721Portal
  | .erc1155Single => erc1155SinglePortal
  | .erc1155Batch => erc1155BatchPortal
  | .relay => addressRelay

/-- The specification of the inputs. -/
def specification : Portal → Specification
  | .ether => etherDeposit
  | .erc20 => erc20Deposit
  | .erc721 => erc721Deposit
  | .erc1155Single => erc1155SingleDeposit
  | .erc1155Batch => erc1155BatchDeposit
  | .relay => dappAddressRelay

end Portal

/-- What a portal sends on. -/
inductive Message where
  /-- A deposit of ether. -/
  | ether (sender : Account) (amount : Quantity) (data : List UInt8)
  /-- A deposit of ERC-20 tokens. -/
  | erc20 (success : UInt8) (token sender : Account) (amount : Quantity) (data : List UInt8)
  /-- A deposit of an ERC-721 token. -/
  | erc721 (token sender : Account) (tokenId : Quantity) (base exec : List UInt8)
  /-- A deposit of ERC-1155 tokens of one kind. -/
  | erc1155Single (token sender : Account) (tokenId amount : Quantity) (base exec : List UInt8)
  /-- A deposit of ERC-1155 tokens of several kinds. The two lists may differ in length. -/
  | erc1155Batch (token sender : Account) (tokenIds amounts : List Quantity)
    (base exec : List UInt8)
  /-- The address of the application. -/
  | relay (application : Account)

/-- The types of what is added to a deposit of tokens other than ERC-20. -/
def layerTypes : List AbiType := [.bytes, .bytes]

/-- The types of what ends a deposit of ERC-1155 tokens of several kinds. -/
def batchTypes : List AbiType := [.array (.uint 256), .array (.uint 256), .bytes, .bytes]

/-- The values of what ends a deposit of ERC-1155 tokens of several kinds. -/
def batchValues (tokenIds amounts : List Quantity) (base exec : List UInt8) : List Value :=
  [.array (tokenIds.map Quantity.decoded), .array (amounts.map Quantity.decoded), .bytes base,
    .bytes exec]

namespace Message

/-- The portal that sends it. -/
def portal : Message → Portal
  | .ether .. => .ether
  | .erc20 .. => .erc20
  | .erc721 .. => .erc721
  | .erc1155Single .. => .erc1155Single
  | .erc1155Batch .. => .erc1155Batch
  | .relay .. => .relay

/-- The packed encoding. -/
def packed : Message → List UInt8
  | .ether sender amount data => sender.bytes ++ amount.word ++ data
  | .erc20 success token sender amount data =>
    [success] ++ token.bytes ++ sender.bytes ++ amount.word ++ data
  | .erc721 token sender tokenId base exec =>
    token.bytes ++ sender.bytes ++ tokenId.word ++ encodeParams layerTypes [.bytes base, .bytes exec]
  | .erc1155Single token sender tokenId amount base exec =>
    token.bytes ++ sender.bytes ++ tokenId.word ++ amount.word ++
      encodeParams layerTypes [.bytes base, .bytes exec]
  | .erc1155Batch token sender tokenIds amounts base exec =>
    token.bytes ++ sender.bytes ++
      encodeParams batchTypes (batchValues tokenIds amounts base exec)
  | .relay application => application.bytes

/-- The components with their declared names, in order. -/
def components : Message → List (String × Value)
  | .ether sender amount data =>
    [("sender", .bytes sender.bytes), ("amount", amount.decoded), ("execLayerData", .bytes data)]
  | .erc20 success token sender amount data =>
    [("success", .bytes [success]), ("tokenAddress", .bytes token.bytes),
      ("from", .bytes sender.bytes), ("amount", amount.decoded), ("execLayerData", .bytes data)]
  | .erc721 token sender tokenId base exec =>
    [("tokenAddress", .bytes token.bytes), ("from", .bytes sender.bytes),
      ("tokenId", tokenId.decoded), ("baseLayer", .bytes base), ("execLayer", .bytes exec)]
  | .erc1155Single token sender tokenId amount base exec =>
    [("tokenAddress", .bytes token.bytes), ("from", .bytes sender.bytes),
      ("tokenId", tokenId.decoded), ("amount", amount.decoded), ("baseLayer", .bytes base),
      ("execLayer", .bytes exec)]
  | .erc1155Batch token sender tokenIds amounts base exec =>
    [("tokenAddress", .bytes token.bytes), ("from", .bytes sender.bytes),
      ("tokenIds", .array (tokenIds.map Quantity.decoded)),
      ("amount", .array (amounts.map Quantity.decoded)), ("baseLayer", .bytes base),
      ("execLayer", .bytes exec)]
  | .relay application => [("dappAddress", .bytes application.bytes)]

/-- The components have distinct names. -/
theorem nodup_components (m : Message) : (m.components.map (·.1)).Nodup := by
  cases m <;> simp [components]

/-- No component is named like the encoded part. -/
theorem data_notMem_components (m : Message) : "data" ∉ m.components.map (·.1) := by
  cases m <;> simp [components]

/-- The room in bytes that the encoded part takes when it is decoded: a cell per number and a byte
per byte. -/
def room : Message → Nat
  | .erc721 _ _ _ base exec | .erc1155Single _ _ _ _ base exec => base.length + exec.length
  | .erc1155Batch _ _ tokenIds amounts base exec =>
    tokenIds.length * cellBytes + amounts.length * cellBytes + base.length + exec.length
  | .ether .. | .erc20 .. | .relay .. => 0

end Message

end RollupInput.Portals
