import RollupInput.Json.Value
import RollupInput.Text.Hex

/-!
# Reading JSON text

The reader takes the grammar strictly: no comments, no trailing commas, no byte order mark and
nothing but blanks after the value. Surrogates have to come in pairs, a number has to fit a
double, and containers nest at most 127 deep. The members of an object are sorted by name and
the last of equal names stays. Each step consumes a character, so the length of the text bounds
the steps.
-/

namespace RollupInput.Json

/-- Why a text is not JSON. -/
inductive Fault where
  /-- The text ends inside a value. -/
  | unexpectedEnd
  /-- A character stands where the grammar has no place for it. -/
  | unexpected
  /-- Text other than blanks follows the value. -/
  | trailing
  /-- A number is not written as the grammar asks. -/
  | malformedNumber
  /-- A number is beyond the greatest double. -/
  | numberOutOfRange
  /-- A control character stands in a string. -/
  | controlCharacter
  /-- A backslash starts no escape. -/
  | malformedEscape
  /-- A surrogate stands alone. -/
  | loneSurrogate
  /-- Containers nest too deep. -/
  | tooDeep
  deriving DecidableEq, Repr

/-- The wording of a fault. -/
def Fault.message : Fault → String
  | .unexpectedEnd => "EOF while parsing a value"
  | .unexpected => "expected value"
  | .trailing => "trailing characters"
  | .malformedNumber => "invalid number"
  | .numberOutOfRange => "number out of range"
  | .controlCharacter => "control character found while parsing a string"
  | .malformedEscape => "invalid escape"
  | .loneSurrogate => "lone leading surrogate in hex escape"
  | .tooDeep => "recursion limit exceeded"

/-- A fault and how many characters were left where it was found. -/
structure Stop where
  /-- What is wrong. -/
  fault : Fault
  /-- The number of characters not yet read. -/
  left : Nat
  deriving DecidableEq, Repr

/-- Stop with a fault in front of the given rest. -/
def stop {α : Type} (fault : Fault) (rest : List Char) : Except Stop α :=
  .error ⟨fault, rest.length⟩

/-- The four characters that may stand between tokens. -/
def isSpace (c : Char) : Bool := c == ' ' || c == '\n' || c == '\r' || c == '\t'

/-- The text without the spaces in front. -/
def skipSpace (cs : List Char) : List Char := cs.dropWhile isSpace

/-- The number below 65536 that four hexadecimal digits write. -/
def unit? (a b c d : Char) : Option Nat :=
  match Text.Hex.value? a, Text.Hex.value? b, Text.Hex.value? c, Text.Hex.value? d with
  | some w, some x, some y, some z => some (4096 * w + 256 * x + 16 * y + z)
  | _, _, _, _ => none

/-- A unit that opens a surrogate pair. -/
def isHighSurrogate (u : Nat) : Bool := 0xD800 ≤ u && u < 0xDC00

/-- A unit that closes a surrogate pair. -/
def isLowSurrogate (u : Nat) : Bool := 0xDC00 ≤ u && u < 0xE000

/-- Put a character in front of the text that was read. -/
def prepend (c : Char) (r : Except Stop (List Char × List Char)) :
    Except Stop (List Char × List Char) :=
  r.map fun p => (c :: p.1, p.2)

/-- The rest of a string whose opening quote is read: its text and what follows the closing
quote. -/
def readString : List Char → Except Stop (List Char × List Char)
  | [] => stop .unexpectedEnd []
  | '"' :: cs => .ok ([], cs)
  | '\\' :: '"' :: cs => prepend '"' (readString cs)
  | '\\' :: '\\' :: cs => prepend '\\' (readString cs)
  | '\\' :: '/' :: cs => prepend '/' (readString cs)
  | '\\' :: 'b' :: cs => prepend (Char.ofNat 8) (readString cs)
  | '\\' :: 'f' :: cs => prepend (Char.ofNat 12) (readString cs)
  | '\\' :: 'n' :: cs => prepend '\n' (readString cs)
  | '\\' :: 'r' :: cs => prepend '\r' (readString cs)
  | '\\' :: 't' :: cs => prepend '\t' (readString cs)
  | '\\' :: 'u' :: a :: b :: c :: d :: cs =>
    match unit? a b c d with
    | none => stop .malformedEscape cs
    | some u =>
      if isLowSurrogate u then stop .loneSurrogate cs
      else if isHighSurrogate u then
        match cs with
        | '\\' :: 'u' :: e :: f :: g :: h :: ds =>
          match unit? e f g h with
          | none => stop .malformedEscape ds
          | some w =>
            if isLowSurrogate w then
              prepend (Char.ofNat (0x10000 + (u - 0xD800) * 1024 + (w - 0xDC00))) (readString ds)
            else stop .loneSurrogate ds
        | _ => stop .loneSurrogate cs
      else prepend (Char.ofNat u) (readString cs)
  | '\\' :: cs => stop .malformedEscape cs
  | c :: cs => if c.toNat < 32 then stop .controlCharacter cs else prepend c (readString cs)

/-- The greatest significand that is collected exactly. -/
def maxSignificand : Nat := Nat.pow 2 64 - 1

/-- Collect digits into a significand until one does not fit: the significand and the number of
digits taken. -/
def collect (significand : Nat) : List Char → Nat × Nat
  | [] => (significand, 0)
  | c :: cs =>
    let next := significand * 10 + (c.toNat - '0'.toNat)
    if next > maxSignificand then (significand, 0)
    else
      let more := collect next cs
      (more.1, more.2 + 1)

/-- The parts of a number's text. -/
structure NumberText where
  /-- Whether a minus stands in front. -/
  negative : Bool
  /-- The digits before the point. -/
  whole : List Char
  /-- The digits after the point, empty when there is no point. -/
  fraction : List Char
  /-- The sign and the digits of the exponent, if there is one. -/
  exponent : Option (Bool × List Char)
  deriving DecidableEq, Repr

/-- The digits of an exponent after its mark, with whether its sign is minus. -/
def exponentParts? (cs : List Char) : Option (Bool × List Char) :=
  let signed : Bool × List Char :=
    match cs with
    | '+' :: ds => (false, ds)
    | '-' :: ds => (true, ds)
    | ds => (false, ds)
  if signed.2.isEmpty || !signed.2.all Text.isDigit then none else some signed

/-- Cut a number's text into its parts, if the grammar admits it. -/
def NumberText.ofChars? (cs : List Char) : Option NumberText :=
  let signed : Bool × List Char :=
    match cs with
    | '-' :: ds => (true, ds)
    | ds => (false, ds)
  let whole := signed.2.takeWhile Text.isDigit
  let afterWhole := signed.2.dropWhile Text.isDigit
  if whole.isEmpty || (whole.length > 1 && whole.head? == some '0') then none
  else
    let fractional : Option (List Char × List Char) :=
      match afterWhole with
      | '.' :: ds =>
        let fraction := ds.takeWhile Text.isDigit
        if fraction.isEmpty then none else some (fraction, ds.dropWhile Text.isDigit)
      | ds => some ([], ds)
    match fractional with
    | none => none
    | some (fraction, []) => some ⟨signed.1, whole, fraction, none⟩
    | some (fraction, c :: ds) =>
      if c == 'e' || c == 'E' then
        (exponentParts? ds).map fun e => ⟨signed.1, whole, fraction, some e⟩
      else none

/-- The double that the parts of a number write: the digits that fit 64 bits make the
significand, and the others only move the point. -/
def NumberText.double? (t : NumberText) : Option Binary64 :=
  let first := collect 0 t.whole
  let dropped := t.whole.length - first.2
  let second := collect first.1 t.fraction
  let point : Int := (dropped : Int) - (second.2 : Int)
  let exponent : Int :=
    match t.exponent with
    | none => 0
    | some (minus, ds) =>
      let n := Nat.ofDigitChars 10 ds 0
      if minus then -(n : Int) else n
  (Magnitude.ofDecimal? second.1 (point + exponent)).map fun m => ⟨t.negative, m⟩

/-- The number that the parts write. A plain integer that fits 64 bits, with or without sign,
stays an integer; minus zero is a double. -/
def NumberText.number? (t : NumberText) : Option JsonNumber :=
  let n := Nat.ofDigitChars 10 t.whole 0
  let plain := t.fraction.isEmpty && t.exponent.isNone
  if plain && !t.negative && n ≤ maxSignificand then some (.int n)
  else if plain && t.negative && 0 < n && n ≤ Nat.pow 2 63 then some (.int (-(n : Int)))
  else t.double?.map .double

/-- A character that may belong to a number. -/
def isNumberChar (c : Char) : Bool :=
  Text.isDigit c || c == '-' || c == '+' || c == '.' || c == 'e' || c == 'E'

/-- Read the number at the head of a text. -/
def readNumber (cs : List Char) : Except Stop (JsonNumber × List Char) :=
  let rest := cs.dropWhile isNumberChar
  match NumberText.ofChars? (cs.takeWhile isNumberChar) with
  | none => stop (if rest.isEmpty then .unexpectedEnd else .malformedNumber) rest
  | some t =>
    match t.number? with
    | none => stop .numberOutOfRange rest
    | some n => .ok (n, rest)

/-- Stop at a text in which the grammar finds no token it could use. -/
def stopAt {α : Type} (rest : List Char) : Except Stop α :=
  stop (if rest.isEmpty then .unexpectedEnd else .unexpected) rest

mutual

/-- Read one value; `depth` more containers may be opened. -/
def readValue : Nat → Nat → List Char → Except Stop (Json × List Char)
  | 0, _, cs => stopAt cs
  | steps + 1, depth, cs =>
    match skipSpace cs with
    | 'n' :: 'u' :: 'l' :: 'l' :: rest => .ok (.null, rest)
    | 't' :: 'r' :: 'u' :: 'e' :: rest => .ok (.bool true, rest)
    | 'f' :: 'a' :: 'l' :: 's' :: 'e' :: rest => .ok (.bool false, rest)
    | '"' :: rest => (readString rest).map fun p => (.str (String.ofList p.1), p.2)
    | '[' :: rest =>
      match depth with
      | 0 => stop .tooDeep rest
      | depth + 1 =>
        match skipSpace rest with
        | ']' :: rest => .ok (.arr [], rest)
        | rest => (readItems steps depth rest).map fun p => (.arr p.1, p.2)
    | '\x7b' :: rest =>
      match depth with
      | 0 => stop .tooDeep rest
      | depth + 1 =>
        match skipSpace rest with
        | '\x7d' :: rest => .ok (.obj [], rest)
        | rest => (readMembers steps depth [] rest).map fun p => (.obj p.1, p.2)
    | c :: rest =>
      if c == '-' || Text.isDigit c then
        (readNumber (c :: rest)).map fun p => (.num p.1, p.2)
      else stop .unexpected rest
    | [] => stop .unexpectedEnd []

/-- Read the items of an array that has at least one, and its closing bracket. -/
def readItems : Nat → Nat → List Char → Except Stop (List Json × List Char)
  | 0, _, cs => stopAt cs
  | steps + 1, depth, cs =>
    match readValue steps depth cs with
    | .error e => .error e
    | .ok (v, rest) =>
      match skipSpace rest with
      | ',' :: rest => (readItems steps depth rest).map fun p => (v :: p.1, p.2)
      | ']' :: rest => .ok ([v], rest)
      | rest => stopAt rest

/-- Read the members of an object that has at least one, and its closing brace, and put them
among the members read before. -/
def readMembers : Nat → Nat → List (String × Json) → List Char →
    Except Stop (List (String × Json) × List Char)
  | 0, _, _, cs => stopAt cs
  | steps + 1, depth, members, cs =>
    match skipSpace cs with
    | '"' :: rest =>
      match readString rest with
      | .error e => .error e
      | .ok (key, rest) =>
        match skipSpace rest with
        | ':' :: rest =>
          match readValue steps depth rest with
          | .error e => .error e
          | .ok (v, rest) =>
            let members := insertMember (String.ofList key) v members
            match skipSpace rest with
            | ',' :: rest => readMembers steps depth members rest
            | '\x7d' :: rest => .ok (members, rest)
            | rest => stopAt rest
        | rest => stopAt rest
    | rest => stopAt rest

end

/-- How deep containers may nest. -/
def maxDepth : Nat := 127

/-- Read a whole text as one value. -/
def readText (cs : List Char) : Except Stop Json :=
  match readValue (2 * cs.length + 2) maxDepth cs with
  | .error e => .error e
  | .ok (v, rest) =>
    let rest := skipSpace rest
    if rest.isEmpty then .ok v else stop .trailing rest

/-- A fault with its place in the text, counted from one. -/
structure TextError where
  /-- What is wrong. -/
  fault : Fault
  /-- The line of the place. -/
  line : Nat
  /-- The column of the place. -/
  column : Nat
  deriving DecidableEq, Repr

/-- The wording of a fault with its place. -/
def TextError.message (e : TextError) : String :=
  s!"{e.fault.message} at line {e.line} column {e.column}"

/-- The place that is reached after reading a text. -/
def place (done : List Char) : Nat × Nat :=
  (1 + done.count '\n', (done.reverse.takeWhile (· != '\n')).length)

/-- Read a string as one JSON value. -/
def parse (s : String) : Except TextError Json :=
  let cs := s.toList
  match readText cs with
  | .ok v => .ok v
  | .error e =>
    let at_ := place (cs.take (cs.length - e.left))
    .error ⟨e.fault, at_.1, at_.2⟩

end RollupInput.Json
