import RollupInput.Text

/-!
# ABI types

The types of contract parameters with their canonical names, and the measures that the encoding
takes of them: whether a value stands behind an offset, how many words it has in the head, and
how many words it needs at least.
-/

namespace RollupInput.Abi

/-- The number of values of a 64 bit word, the bound on sizes and offsets. -/
def wordLimit : Nat := Nat.pow 2 64

/-- The type of a parameter. -/
inductive AbiType where
  /-- A truth value. -/
  | bool
  /-- An integer of a width in bits. -/
  | int (bits : Nat)
  /-- A natural number of a width in bits. -/
  | uint (bits : Nat)
  /-- An account. -/
  | address
  /-- A byte string of fixed size. -/
  | fixedBytes (size : Nat)
  /-- A function of an account. -/
  | function
  /-- A byte string of any size. -/
  | bytes
  /-- A text. -/
  | string
  /-- Any number of elements. -/
  | array (element : AbiType)
  /-- A fixed number of elements. -/
  | fixedArray (element : AbiType) (size : Nat)
  /-- A sequence of fields of their own types. -/
  | tuple (fields : List AbiType)
  deriving Repr, BEq, Inhabited

namespace AbiType

/-- The name of a tuple with fields of the given names. A tuple of one field keeps a comma after
it. -/
def tupleName : List (List Char) → List Char
  | [field] => '(' :: (field ++ [',', ')'])
  | fields => '(' :: (Text.join [','] fields ++ [')'])

mutual

/-- The canonical name of a type. -/
def name : AbiType → List Char
  | .bool => ['b', 'o', 'o', 'l']
  | .int bits => ['i', 'n', 't'] ++ Text.decimal bits
  | .uint bits => ['u', 'i', 'n', 't'] ++ Text.decimal bits
  | .address => ['a', 'd', 'd', 'r', 'e', 's', 's']
  | .fixedBytes size => ['b', 'y', 't', 'e', 's'] ++ Text.decimal size
  | .function => ['f', 'u', 'n', 'c', 't', 'i', 'o', 'n']
  | .bytes => ['b', 'y', 't', 'e', 's']
  | .string => ['s', 't', 'r', 'i', 'n', 'g']
  | .array element => name element ++ ['[', ']']
  | .fixedArray element size => name element ++ '[' :: (Text.decimal size ++ [']'])
  | .tuple fields => tupleName (names fields)

/-- The canonical names of a list of types. -/
def names : List AbiType → List (List Char)
  | [] => []
  | t :: rest => name t :: names rest

end

mutual

/-- The canonical name of a type in front of a text, in one pass over the type. -/
def nameOnto : AbiType → List Char → List Char
  | .array element, rest => nameOnto element ('[' :: ']' :: rest)
  | .fixedArray element size, rest =>
    nameOnto element ('[' :: (Text.decimal size ++ (']' :: rest)))
  | .tuple [field], rest => '(' :: nameOnto field (',' :: ')' :: rest)
  | .tuple fields, rest => '(' :: namesOnto fields (')' :: rest)
  | t, rest => name t ++ rest

/-- The canonical names of a list of types, with commas between them, in front of a text. -/
def namesOnto : List AbiType → List Char → List Char
  | [], rest => rest
  | [t], rest => nameOnto t rest
  | t :: ts, rest => nameOnto t (',' :: namesOnto ts rest)

end

mutual

theorem nameOnto_eq (t : AbiType) (rest : List Char) : nameOnto t rest = name t ++ rest := by
  cases t with
  | array element => simp [nameOnto, name, nameOnto_eq element]
  | fixedArray element size => simp [nameOnto, name, nameOnto_eq element]
  | tuple fields =>
    match fields with
    | [] => simp [nameOnto, namesOnto, name, names, tupleName, Text.join]
    | [field] => simp [nameOnto, name, names, tupleName, nameOnto_eq field]
    | t :: u :: ts =>
      simp only [nameOnto, namesOnto_eq (t :: u :: ts)]
      simp [name, names, tupleName]
  | _ => rfl

theorem namesOnto_eq (ts : List AbiType) (rest : List Char) :
    namesOnto ts rest = Text.join [','] (names ts) ++ rest := by
  match ts with
  | [] => rfl
  | [t] => simp [namesOnto, names, Text.join, nameOnto_eq t]
  | t :: u :: ts =>
    rw [namesOnto]
    · rw [nameOnto_eq t, namesOnto_eq (u :: ts)]
      simp [names, Text.join]
    · simp

end

/-- The canonical name of a type as it stands in messages and listings. -/
def text (t : AbiType) : String := String.ofList (nameOnto t [])

/-- The text of a type is its canonical name. -/
theorem text_eq (t : AbiType) : t.text = String.ofList t.name := by
  simp [text, nameOnto_eq]

mutual

/-- Whether the type counts as dynamic: it is, or holds, a byte string, a text or an array of any
size. An array of no elements counts like its element. -/
def isDynamic : AbiType → Bool
  | .bytes | .string | .array _ => true
  | .fixedArray element _ => isDynamic element
  | .tuple fields => anyDynamic fields
  | _ => false

/-- Whether one of the types counts as dynamic. -/
def anyDynamic : List AbiType → Bool
  | [] => false
  | t :: rest => isDynamic t || anyDynamic rest

end

mutual

/-- Whether a value of the type stands behind an offset: one of its parts is of varying size. An
array of no elements has no parts. -/
def isIndirect : AbiType → Bool
  | .bytes | .string | .array _ => true
  | .fixedArray element size => size != 0 && isIndirect element
  | .tuple fields => anyIndirect fields
  | _ => false

/-- Whether a value of one of the types stands behind an offset. -/
def anyIndirect : List AbiType → Bool
  | [] => false
  | t :: rest => isIndirect t || anyIndirect rest

end

mutual

/-- Whether the type is made of nothing but empty tuples and arrays of no elements. -/
def isEmpty : AbiType → Bool
  | .array element => isEmpty element
  | .fixedArray element size => size == 0 || isEmpty element
  | .tuple fields => allEmpty fields
  | _ => false

/-- Whether all of the types are made of nothing. -/
def allEmpty : List AbiType → Bool
  | [] => true
  | t :: rest => isEmpty t && allEmpty rest

end

mutual

/-- The least number of words that an encoding of the type takes, with what its offsets lead to
left out. -/
def leastWords : AbiType → Nat
  | .fixedArray element size => size * leastWords element
  | .tuple fields => leastWordsSum fields
  | _ => 1

/-- The sum of the least numbers of words of the types. -/
def leastWordsSum : List AbiType → Nat
  | [] => 0
  | t :: rest => leastWords t + leastWordsSum rest

end

/-- A count that has to fit a 64 bit word. -/
def counted (n : Nat) : Option Nat := if n < wordLimit then some n else none

mutual

/-- The number of words that the type occupies in the head of an encoding, unless a count on the
way does not fit a 64 bit word. -/
def wordsInHead : AbiType → Option Nat
  | .fixedArray element size =>
    if isDynamic element then some 1
    else (wordsInHead element).bind fun n => counted (n * size)
  | .tuple fields => if anyDynamic fields then some 1 else wordsInHeadFrom 0 fields
  | _ => some 1

/-- The head words of a list of types, added to a count. -/
def wordsInHeadFrom (total : Nat) : List AbiType → Option Nat
  | [] => some total
  | t :: rest =>
    (wordsInHead t).bind fun n => (counted (total + n)).bind fun sum => wordsInHeadFrom sum rest

end

end AbiType

end RollupInput.Abi
