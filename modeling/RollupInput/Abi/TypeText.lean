import RollupInput.Abi.Type

/-!
# Type specifiers

The syntax in which a contract interface writes types: an identifier, or a parenthesised list of
specifiers, then any number of array suffixes. Specifiers nest at most eighty deep. Reading is
separate from the meaning of an identifier, since an interface may name types that only its
components describe.
-/

namespace RollupInput.Abi

/-- An array suffix: without a size, or with a positive one. -/
abbrev Suffix : Type := Option Nat

/-- A specifier as it is written. -/
inductive TypeText where
  /-- An identifier with array suffixes. -/
  | named (identifier : List Char) (suffixes : List Suffix)
  /-- A list of specifiers with array suffixes. -/
  | tuple (fields : List TypeText) (suffixes : List Suffix)
  deriving Repr, Inhabited

/-- Why a text names no type. -/
inductive TypeFault where
  /-- The text is no specifier. -/
  | malformed
  /-- An identifier is the name of no type. -/
  | unknown (name : List Char)
  /-- A type has no variant of the written size. -/
  | badSize (name : List Char)
  deriving DecidableEq, Repr

/-- The wording of a fault. -/
def TypeFault.message : TypeFault → List Char
  | .malformed => "parser error".toList
  | .unknown name => "invalid type string: ".toList ++ name
  | .badSize name => "invalid size for type: ".toList ++ name

namespace TypeText

/-- The spaces and tabs that may stand after an opening parenthesis or a comma. -/
def skipGap (cs : List Char) : List Char := cs.dropWhile fun c => c == ' ' || c == '\t'

/-- The identifier at the head of a text and what follows it. -/
def readIdentifier? (cs : List Char) : Option (List Char × List Char) :=
  match cs with
  | [] => none
  | c :: rest =>
    if Text.isIdentifierStart c then
      some (c :: rest.takeWhile Text.isIdentifierChar, rest.dropWhile Text.isIdentifierChar)
    else none

/-- The named type at the head of a text. An identifier behind a point is the name of an
enumeration of a library, which is encoded like `uint8`. -/
def readName? (cs : List Char) : Option (List Char × List Char) :=
  (readIdentifier? cs).map fun p =>
    match p.2 with
    | '.' :: rest => (['u', 'i', 'n', 't', '8'], ((readIdentifier? rest).map (·.2)).getD rest)
    | rest => (p.1, rest)

/-- The array suffix at the head of a text that starts after the opening bracket. -/
def readSuffix? (cs : List Char) : Option (Suffix × List Char) :=
  match cs with
  | ']' :: rest => some (none, rest)
  | _ =>
    match Text.readDecimal? (cs.takeWhile Text.isDigit), cs.dropWhile Text.isDigit with
    | some n, ']' :: rest => if 0 < n && n < wordLimit then some (some n, rest) else none
    | _, _ => none

/-- The array suffixes at the head of a text. -/
def readSuffixes? : Nat → List Char → Option (List Suffix × List Char)
  | 0, _ => none
  | steps + 1, cs =>
    match cs with
    | '[' :: rest =>
      (readSuffix? rest).bind fun s =>
        (readSuffixes? steps s.2).map fun p => (s.1 :: p.1, p.2)
    | _ => some ([], cs)

/-- What follows the opening parenthesis of a list of specifiers, if the text starts with one,
which the word `tuple` may stand in front of. -/
def opening? (cs : List Char) : Option (List Char) :=
  match cs with
  | '(' :: rest => some rest
  | _ => Text.after? ['t', 'u', 'p', 'l', 'e', '('] cs

/-- How deep specifiers may nest, the outermost one counted. -/
def maxLevels : Nat := 80

mutual

/-- Read one specifier that nests at most `levels` deep. -/
def read? : Nat → Nat → List Char → Option (TypeText × List Char)
  | steps + 1, levels + 1, cs =>
    match opening? cs with
    | some rest =>
      let listed :=
        match skipGap rest with
        | ')' :: rest => some ([], rest)
        | rest => readFields? steps levels rest
      listed.bind fun fields =>
        (readSuffixes? steps fields.2).map fun s => (.tuple fields.1 s.1, s.2)
    | none =>
      (readName? cs).bind fun name =>
        (readSuffixes? steps name.2).map fun s => (.named name.1 s.1, s.2)
  | _, _, _ => none

/-- Read the specifiers of a list that has at least one, and its closing parenthesis. A comma may
follow the last one. -/
def readFields? : Nat → Nat → List Char → Option (List TypeText × List Char)
  | 0, _, _ => none
  | steps + 1, levels, cs =>
    (read? steps levels cs).bind fun field =>
      match field.2 with
      | ',' :: rest =>
        match skipGap rest with
        | ')' :: rest => some ([field.1], rest)
        | rest => (readFields? steps levels rest).map fun p => (field.1 :: p.1, p.2)
      | rest =>
        match skipGap rest with
        | ')' :: rest => some ([field.1], rest)
        | _ => none

end

/-- Read a whole text as one specifier. -/
def parse? (cs : List Char) : Option TypeText :=
  match read? (2 * cs.length + 2) maxLevels cs with
  | some (t, []) => some t
  | _ => none

/-- The suffixes of a specifier, in order. -/
def suffixes : TypeText → List Suffix
  | .named _ s => s
  | .tuple _ s => s

end TypeText

namespace AbiType

/-- The type with one array suffix. -/
def suffixed (t : AbiType) : Suffix → AbiType
  | none => .array t
  | some n => .fixedArray t n

/-- The type that an identifier names. -/
def ofName (name : List Char) : Except TypeFault AbiType :=
  if name == "address".toList then .ok .address
  else if name == "function".toList then .ok .function
  else if name == "bool".toList then .ok .bool
  else if name == "string".toList then .ok .string
  else if name == "bytes".toList then .ok .bytes
  else if name == "uint".toList then .ok (.uint 256)
  else if name == "int".toList then .ok (.int 256)
  else
    match Text.after? "bytes".toList name with
    | some size =>
      match Text.readDecimal? size with
      | some n => if 0 < n && n ≤ 32 then .ok (.fixedBytes n) else .error (.badSize name)
      | none => .error (.badSize name)
    | none =>
      let unsigned := name.head? == some 'u'
      match Text.after? "int".toList (if unsigned then name.tail else name) with
      | some bits =>
        match Text.readDecimal? bits with
        | some n =>
          if 0 < n && n ≤ 256 && n % 8 == 0 then .ok (if unsigned then .uint n else .int n)
          else .error (.badSize name)
        | none => .error (.badSize name)
      | none => .error (.unknown name)

mutual

/-- The type that a specifier names. -/
def ofText : TypeText → Except TypeFault AbiType
  | .named identifier suffixes => (ofName identifier).map fun t => suffixes.foldl suffixed t
  | .tuple fields suffixes =>
    (ofTexts fields).map fun ts => suffixes.foldl suffixed (.tuple ts)

/-- The types that a list of specifiers names. -/
def ofTexts : List TypeText → Except TypeFault (List AbiType)
  | [] => .ok []
  | t :: rest =>
    match ofText t with
    | .error e => .error e
    | .ok u => (ofTexts rest).map (u :: ·)

end

/-- The type that a text writes. -/
def parse (cs : List Char) : Except TypeFault AbiType :=
  match TypeText.parse? cs with
  | none => .error .malformed
  | some t => ofText t

end AbiType

end RollupInput.Abi
