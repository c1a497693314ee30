import RollupInput.Specification

/-!
# Built-in specifications

Inputs that come through one of the portals of a rollup are encoded in a packed form that is known
for each portal. The portal's address in the sender selects its specification.
-/

namespace RollupInput.Portals

/-- The address of the portal for ether. -/
def etherPortal : String := "0xFfdbe43d4c855BF7e0f105c400A50857f53AB044"

/-- The address of the portal for ERC-20 tokens. -/
def erc20Portal : String := "0x9C21AEb2093C32DDbC53eEF24B873BDCd1aDa1DB"

/-- The address of the portal for ERC-721 tokens. -/
def erc721Portal : String := "0x237F8DD094C0e47f4236f12b4Fa01d6Dae89fb87"

/-- The address of the portal for single ERC-1155 tokens. -/
def erc1155SinglePortal : String := "0x7CFB0193Ca87eB6e48056885E026552c3A941FC4"

/-- The address of the portal for batches of ERC-1155 tokens. -/
def erc1155BatchPortal : String := "0xedB53860A6B52bbb7561Ad596416ee9965B055Aa"

/-- The address of the relay that tells an application its own address. -/
def addressRelay : String := "0xF5DE34d6BbC0446E2a45719E718efEbaaE179daE"

/-- The time of all built-in specifications, 2023-11-01. -/
def timestamp : Nat := 1698796800000

/-- The declaration of the data behind a deposit of tokens other than ERC-20. -/
def layerDeclaration : String := "bytes baseLayer, bytes execLayer"

/-- A range that is kept as it is. -/
def bytesAt (start stop : Nat) (name : String) : ByteRange :=
  ⟨start, some stop, some name, none, none⟩

/-- A range that is decoded as a type. -/
def valueAt (start stop : Nat) (name type : String) : ByteRange :=
  ⟨start, some stop, some name, some type, none⟩

/-- Everything from an offset on. -/
def bytesFrom (start : Nat) (name : String) : ByteRange :=
  ⟨start, none, some name, none, none⟩

/-- Everything from an offset on, which may be missing. -/
def optionalBytesFrom (start : Nat) (name : String) : ByteRange :=
  ⟨start, none, some name, none, some true⟩

/-- A built-in specification, chosen by the sender. -/
def builtIn (id name sender : String) (mode : ParamsMode) : Specification :=
  { id := some ("system:" ++ id), name := name, timestamp := timestamp, version := 1,
    mode := .params mode,
    conditionals := some [⟨.or, [⟨.msgSender, .equals, sender⟩]⟩] }

/-- A deposit of ether: sender, amount, data. -/
def etherDeposit : Specification :=
  builtIn "ether-deposit" "Ether Portal @cartesi/rollups@1.x" etherPortal
    { declarations := [],
      ranges := some [bytesAt 0 20 "sender", valueAt 20 52 "amount" "uint",
        optionalBytesFrom 52 "execLayerData"],
      target := none }

/-- A deposit of ERC-20 tokens: success, token, sender, amount, data. -/
def erc20Deposit : Specification :=
  builtIn "erc20-deposit" "ERC-20 Portal @cartesi/rollups@1.x" erc20Portal
    { declarations := [],
      ranges := some [bytesAt 0 1 "success", bytesAt 1 21 "tokenAddress", bytesAt 21 41 "from",
        valueAt 41 73 "amount" "uint", optionalBytesFrom 73 "execLayerData"],
      target := none }

/-- A deposit of an ERC-721 token: token, sender, token identifier, encoded data. -/
def erc721Deposit : Specification :=
  builtIn "erc721-deposit" "ERC-721 Portal @cartesi/rollups@1.x" erc721Portal
    { declarations := [layerDeclaration],
      ranges := some [bytesAt 0 20 "tokenAddress", bytesAt 20 40 "from",
        valueAt 40 72 "tokenId" "uint", bytesFrom 72 "data"],
      target := some "data" }

/-- A deposit of ERC-1155 tokens of one kind: token, sender, identifier, amount, encoded data. -/
def erc1155SingleDeposit : Specification :=
  builtIn "erc1155-single-deposit" "ERC-1155 Single Portal @cartesi/rollups@1.x"
    erc1155SinglePortal
    { declarations := [layerDeclaration],
      ranges := some [bytesAt 0 20 "tokenAddress", bytesAt 20 40 "from",
        valueAt 40 72 "tokenId" "uint", valueAt 72 104 "amount" "uint", bytesFrom 104 "data"],
      target := some "data" }

/-- A deposit of ERC-1155 tokens of several kinds: token, sender, encoded lists and data. -/
def erc1155BatchDeposit : Specification :=
  builtIn "erc1155-batch-deposit" "ERC-1155 Batch Portal @cartesi/rollups@1.x" erc1155BatchPortal
    { declarations := ["uint[] tokenIds, uint[] amount, bytes baseLayer, bytes execLayer"],
      ranges := some [bytesAt 0 20 "tokenAddress", bytesAt 20 40 "from", bytesFrom 40 "data"],
      target := some "data" }

/-- The address of the application itself. -/
def dappAddressRelay : Specification :=
  builtIn "dapp-address-relay" "DApp Address Relay @cartesi/rollups@1.x" addressRelay
    { declarations := [], ranges := some [bytesAt 0 20 "dappAddress"], target := none }

/-- All built-in specifications, in the order of matching. -/
def specifications : List Specification :=
  [etherDeposit, erc20Deposit, erc721Deposit, erc1155SingleDeposit, erc1155BatchDeposit,
    dappAddressRelay]

/-- The built-in specification of an identifier. -/
def find? (id : String) : Option Specification := specifications.find? (·.id == some id)

end RollupInput.Portals
