import RollupInput.Abi.Type
import RollupInput.Abi.Value
import RollupInput.Abi.Weighed
import RollupInput.LazyTable
import RollupInput.Text.Utf8

/-!
# Reading the parameter encoding

Every type has a place of fixed size in the contents of the tuple or array around it. A value of
varying size stands behind an offset in its place, which counts from the start of those contents.
Words are taken at their face value: unused bytes are not looked at, nothing has to follow the
last byte that is needed, and text that is not UTF-8 is read with replacement characters.
Containers open at most sixteen deep.

Offsets may lead to the same bytes again and again. What an array holds at a position depends on
nothing but the position, so arrays are read from lazy tables, once for each position, and the
room that they take is added up for each time they are met.
-/

namespace RollupInput.Abi

/-- The number that bytes write, most significant byte first. -/
def natOfBytes (bs : List UInt8) : Nat := bs.foldl (fun n b => 256 * n + b.toNat) 0

/-- The integer that the 32 bytes of a word write in two's complement. -/
def intOfWord (word : List UInt8) : Int :=
  let n := natOfBytes word
  if n < Nat.pow 2 255 then n else (n : Int) - Nat.pow 2 256

/-- The number of bytes of a word. -/
def wordBytes : Nat := 32

/-- Read `n` bytes at a position. -/
def bytesAt (data : Array UInt8) (pos n : Nat) : Weighed (List UInt8) :=
  if data.size < pos + n then .fail .overrun
  else return (data.extract pos (pos + n)).toList

/-- Read a word at a position. -/
def wordAt (data : Array UInt8) (pos : Nat) : Weighed (List UInt8) := bytesAt data pos wordBytes

/-- Read a word at a position that has to be a 64 bit number. -/
def numberAt (data : Array UInt8) (pos : Nat) : Weighed Nat := do
  let word ← wordAt data pos
  if (word.take 24).all (· == 0) then return natOfBytes (word.drop 24)
  else .fail (.notAnOffset word)

/-- Open one more container than are open. -/
def openAt (depth : Nat) : Weighed Unit :=
  if maxDepth ≤ depth then .fail .tooDeep else return ()

/-- Read the offset at a position in contents that start at `base`, and open the container that it
leads to, which starts at the position given back. -/
def follow (data : Array UInt8) (depth base pos : Nat) : Weighed Nat := do
  let offset ← numberAt data pos
  openAt depth
  if data.size < base + offset then .fail .overrun
  else return base + offset

/-- How the values of a type are read. -/
structure ValueReader where
  /-- The number of bytes of the place of a value. -/
  placeBytes : Nat
  /-- Read the value whose place is at position `pos` of contents that start at `base`. -/
  read (base pos : Nat) : Weighed Value

/-- Read `n` values whose places follow each other. -/
def readRow (reader : ValueReader) (base : Nat) : Nat → Nat → Weighed (List Value)
  | 0, _ => return []
  | n + 1, pos => do
    let v ← reader.read base pos
    let rest ← readRow reader base n (pos + reader.placeBytes)
    return v :: rest

/-- The number of bytes of places that follow each other. -/
def placesBytes : List ValueReader → Nat
  | [] => 0
  | reader :: readers => reader.placeBytes + placesBytes readers

/-- Read values of several types whose places follow each other. -/
def readEach (base : Nat) : List ValueReader → Nat → Weighed (List Value)
  | [], _ => return []
  | reader :: readers, pos => do
    let v ← reader.read base pos
    let rest ← readEach base readers (pos + reader.placeBytes)
    return v :: rest

/-- Read words as values. -/
def wordReader (data : Array UInt8) (interpret : List UInt8 → Value) : ValueReader where
  placeBytes := wordBytes
  read _ pos := do
    let word ← wordAt data pos
    return interpret word

/-- Read byte strings behind offsets: their length in a word, then their bytes. -/
def blobReader (data : Array UInt8) (depth : Nat) (interpret : List UInt8 → Value) :
    ValueReader where
  placeBytes := wordBytes
  read base pos := do
    let start ← follow data depth base pos
    let size ← numberAt data start
    let blob ← bytesAt data (start + wordBytes) size
    Weighed.take size
    return interpret blob

/-- Read values made of parts of known types, whose places take `size` bytes. The parts stand
behind an offset if they are indirect and in place otherwise. -/
def partsReader (data : Array UInt8) (depth : Nat) (indirect : Bool) (size : Nat)
    (parts : Nat → Weighed Value) : ValueReader where
  placeBytes := if indirect then wordBytes else size
  read base pos := do
    if indirect then
      let start ← follow data depth base pos
      parts start
    else
      openAt depth
      parts pos

/-- Read the array of any size at a position: its length in a word, then its elements. The length
must not promise more words than are left. Elements that need no words are left out, and no
container is opened for them. -/
def arrayAt (data : Array UInt8) (depth : Nat) (element : AbiType) (reader : ValueReader)
    (start : Nat) : Weighed (List Value) := do
  let size ← numberAt data start
  let contents := start + wordBytes
  if size == 0 || element.leastWords == 0 then return []
  openAt depth
  if (data.size - contents) / wordBytes < size * element.leastWords then .fail .overrun
  Weighed.take (size * element.cells * cellBytes)
  readRow reader contents size contents

/-- Read arrays of any size behind offsets, each once. -/
def arrayReader (data : Array UInt8) (depth : Nat) (element : AbiType) (reader : ValueReader) :
    ValueReader :=
  let arrays := LazyTable.ofFn data.size fun start =>
    Value.array <$> arrayAt data (depth + 1) element reader start
  { placeBytes := wordBytes
    read := fun base pos => do
      let start ← follow data depth base pos
      arrays.get start }

mutual

/-- Read values of a type inside a number of open containers. -/
def valueReader (data : Array UInt8) (depth : Nat) : AbiType → ValueReader
  | .bool => wordReader data fun w => .bool (w.any (· != 0))
  | .int _ => wordReader data fun w => .int (intOfWord w)
  | .uint _ => wordReader data fun w => .uint (natOfBytes w)
  | .address => wordReader data fun w => .address (w.drop 12)
  | .fixedBytes size => wordReader data fun w => .bytes (w.take size)
  | .function => wordReader data fun w => .bytes (w.take 24)
  | .bytes => blobReader data depth .bytes
  | .string => blobReader data depth fun bs => .string (String.ofList (Text.Utf8.decodeLossy bs))
  | .array element => arrayReader data depth element (valueReader data (depth + 2) element)
  | .fixedArray element size =>
    let reader := valueReader data (depth + 1) element
    partsReader data depth (size != 0 && element.isIndirect) (size * reader.placeBytes)
      fun start => Value.array <$> readRow reader start size start
  | .tuple fields =>
    let readers := fieldReaders data (depth + 1) fields
    partsReader data depth (AbiType.anyIndirect fields) (placesBytes readers)
      fun start => Value.tuple <$> readEach start readers start

/-- Read values of each type of a list. -/
def fieldReaders (data : Array UInt8) (depth : Nat) : List AbiType → List ValueReader
  | [] => []
  | t :: rest => valueReader data depth t :: fieldReaders data depth rest

end

/-- Read values of the types of a parameter list. Types that are made of nothing give no values
at all, and need no room. Room is made once the data is known to have the least number of words,
and before any of them is read. -/
def decode [Memory] (types : List AbiType) (data : List UInt8) : Except Misfit (List Value) :=
  if AbiType.allEmpty types then .ok []
  else if data.length / wordBytes < AbiType.leastWordsSum types then .error .overrun
  else
    match AbiType.firstShortage 0 types with
    | some shortage => .error (.noRoom shortage)
    | none => (readEach 0 (fieldReaders data.toArray 0 types) 0).within maxRoom

end RollupInput.Abi
