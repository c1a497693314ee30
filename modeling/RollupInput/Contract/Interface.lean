import RollupInput.Abi.Param
import RollupInput.Abi.TypeText

/-!
# Contract interfaces

The items of a contract's interface: functions, events and errors in the order of their names,
those of one name in the order in which they were given, and at most one constructor, fallback
and receive item. A function is known by its selector, the first four bytes of the hash of its
signature.
-/

namespace RollupInput.Contract

/-- What calling an item may do to the state. -/
inductive Mutability where
  /-- It neither reads nor writes. -/
  | pure
  /-- It only reads. -/
  | view
  /-- It writes, and takes no payment. -/
  | nonpayable
  /-- It writes, and takes payments. -/
  | payable
  deriving DecidableEq, Repr

/-- A parameter as an interface writes it. -/
structure Argument where
  /-- The name, possibly empty. -/
  name : String
  /-- The type as text; for tuples the word `tuple` with array suffixes. -/
  type : String
  /-- The type in the source of the contract. -/
  internalType : Option String
  /-- The fields of a tuple. -/
  components : List Argument
  deriving Repr, BEq, Inhabited

/-- A parameter of an event. -/
structure EventArgument where
  /-- The parameter. -/
  argument : Argument
  /-- Whether it is indexed. -/
  indexed : Bool
  deriving Repr, BEq

/-- A function. -/
structure Function where
  /-- The name. -/
  name : String
  /-- The parameters. -/
  inputs : List Argument
  /-- The results. -/
  outputs : List Argument
  /-- What a call may do. -/
  mutability : Mutability
  deriving Repr, BEq

/-- An event. -/
structure Event where
  /-- The name. -/
  name : String
  /-- The parameters. -/
  inputs : List EventArgument
  /-- Whether its signature is left out of its topics. -/
  anonymous : Bool
  deriving Repr, BEq

/-- An error. -/
structure ErrorItem where
  /-- The name. -/
  name : String
  /-- The parameters. -/
  inputs : List Argument
  deriving Repr, BEq

/-- A constructor. -/
structure Constructor where
  /-- The parameters. -/
  inputs : List Argument
  /-- What a call may do. -/
  mutability : Mutability
  deriving Repr, BEq

/-- One item of an interface. -/
inductive Item where
  /-- A constructor. -/
  | constructor (item : Constructor)
  /-- What is called when no function is. -/
  | fallback (mutability : Mutability)
  /-- What is called by a plain payment. -/
  | receive (mutability : Mutability)
  /-- A function. -/
  | function (item : Function)
  /-- An event. -/
  | event (item : Event)
  /-- An error. -/
  | error (item : ErrorItem)
  deriving Repr, BEq

/-- The interface of a contract. -/
structure Interface where
  /-- The constructor. -/
  constructor? : Option Constructor
  /-- The fallback item. -/
  fallback? : Option Mutability
  /-- The receive item. -/
  receive? : Option Mutability
  /-- The functions by name. -/
  functions : List Function
  /-- The events by name. -/
  events : List Event
  /-- The errors by name. -/
  errors : List ErrorItem
  deriving Repr, BEq

/-- Put an item behind all items whose names are not greater than its own. -/
def insertByName {α : Type} (name : α → String) (item : α) : List α → List α
  | [] => [item]
  | other :: rest =>
    if name item < name other then item :: other :: rest
    else other :: insertByName name item rest

namespace Interface

/-- No items. -/
def empty : Interface := ⟨none, none, none, [], [], []⟩

/-- Add an item; nothing comes of a second constructor, fallback or receive item. -/
def add? (abi : Interface) : Item → Option Interface
  | .constructor c => if abi.constructor?.isSome then none else some { abi with constructor? := c }
  | .fallback m => if abi.fallback?.isSome then none else some { abi with fallback? := m }
  | .receive m => if abi.receive?.isSome then none else some { abi with receive? := m }
  | .function f => some { abi with functions := insertByName Function.name f abi.functions }
  | .event e => some { abi with events := insertByName Event.name e abi.events }
  | .error e => some { abi with errors := insertByName ErrorItem.name e abi.errors }

/-- The interface of some items. -/
def ofItems? (items : List Item) : Option Interface := items.foldlM add? empty

/-- The items in their written order: by kind, then by name. -/
def items (abi : Interface) : List Item :=
  (abi.constructor?.map Item.constructor).toList ++ (abi.fallback?.map Item.fallback).toList ++
    (abi.receive?.map Item.receive).toList ++ abi.functions.map Item.function ++
    abi.events.map Item.event ++ abi.errors.map Item.error

end Interface

mutual

/-- The type of a parameter inside a signature: as it is written, with a tuple's fields in place of
the word `tuple`. -/
def Argument.signatureType : Argument → List Char
  | ⟨_, type, _, components⟩ =>
    if components.isEmpty then type.toList
    else
      '(' :: (Text.join [','] (signatureTypes components) ++
        ')' :: (Text.after? "tuple".toList type.toList).getD [])

/-- The types of some parameters inside a signature. -/
def signatureTypes : List Argument → List (List Char)
  | [] => []
  | a :: rest => a.signatureType :: signatureTypes rest

end

/-- The name of a function with the types of its parameters. -/
def Function.signature (f : Function) : String :=
  String.ofList (f.name.toList ++ '(' :: (Text.join [','] (signatureTypes f.inputs) ++ [')']))

/-- The number of bytes of a selector. -/
def selectorSize : Nat := 4

/-- The bytes by which calls name a function. -/
def Function.selector (f : Function) : List UInt8 :=
  (Keccak.hash (Text.Utf8.encode f.signature.toList)).take selectorSize

end RollupInput.Contract
