import RollupInput.Toml.Value

/-!
# Reading TOML documents

The reader takes version 1.0 of the format: keys with points, tables and arrays of tables, the
four kinds of strings, and dates and times that exist. Arrays and inline tables nest at most 79
deep, and no key has more parts than that. A document that breaks a rule gives nothing at all. Each
step consumes a character, so the length of the text bounds the steps.
-/

namespace RollupInput.Toml

/-- How deep values may nest, and how many parts a key may have. -/
def maxDepth : Nat := 79

/-- A space or a tab. -/
def isSpace (c : Char) : Bool := c == ' ' || c == '\t'

/-- The text without the spaces in front. -/
def skipSpace (cs : List Char) : List Char := cs.dropWhile isSpace

/-- A character that may stand in a comment: no control character but the tab. -/
def isPrintable (c : Char) : Bool := c == '\t' || (32 ≤ c.toNat && c.toNat != 127)

/-- What follows the line break at the head of a text. -/
def lineBreak? : List Char → Option (List Char)
  | '\n' :: cs => some cs
  | '\r' :: '\n' :: cs => some cs
  | _ => none

/-- The text from the end of its line on, without a comment in front of that. -/
def skipComment (cs : List Char) : List Char :=
  match cs with
  | '#' :: rest => rest.dropWhile fun c => isPrintable c
  | _ => cs

/-- What follows the rest of a line that holds nothing but a comment. -/
def endLine? (cs : List Char) : Option (List Char) :=
  match skipComment (skipSpace cs) with
  | [] => some []
  | rest => lineBreak? rest

/-- The text without the spaces, line breaks and comments in front. -/
def skipLines : Nat → List Char → List Char
  | 0, cs => cs
  | steps + 1, cs =>
    let cs := skipSpace cs
    match lineBreak? (skipComment cs) with
    | some rest => skipLines steps rest
    | none => cs

/-- A character that may stand in a key without quotes. -/
def isBareKeyChar (c : Char) : Bool :=
  Text.isLetter c || Text.isDigit c || c == '-' || c == '_'

/-- The value of hexadecimal digits, unless one is none. -/
def hexValue? (cs : List Char) : Option Nat :=
  cs.foldl (fun n c => n.bind fun n => (hexDigit? c).map fun d => 16 * n + d) (some 0)
where
  /-- The value of a hexadecimal digit. -/
  hexDigit? (c : Char) : Option Nat :=
    if Text.isDigit c then some (c.toNat - '0'.toNat)
    else if Text.isHexDigit c then some ((Text.lowerAscii c).toNat - 'a'.toNat + 10)
    else none

/-- The character of a code that is given by hexadecimal digits, unless it is a surrogate or too
great. -/
def scalar? (digits : List Char) : Option Char :=
  (hexValue? digits).bind fun n =>
    if n < 0xD800 || (0xE000 ≤ n && n < 0x110000) then some (Char.ofNat n) else none

/-- Put characters in front of the text that was read. -/
def prepend (cs : List Char) (r : Option (List Char × List Char)) :
    Option (List Char × List Char) :=
  r.map fun p => (cs ++ p.1, p.2)

/-- Whether a backslash in front of this text ends its line. -/
def continuesLine (cs : List Char) : Bool := (lineBreak? (skipSpace cs)).isSome

/-- Read the rest of a string with escapes whose opening quotes are read. Within three quotes it
may have several lines; `skipping` tells that a backslash has ended a line and nothing but
blanks has followed. -/
def readEscaped (multi skipping : Bool) : List Char → Option (List Char × List Char)
  | [] => none
  | c :: cs =>
    if skipping && (isSpace c || c == '\n') then readEscaped multi true cs
    else if c == '\r' then
      match cs with
      | '\n' :: rest =>
        if !multi then none
        else if skipping then readEscaped multi true rest
        else prepend ['\n'] (readEscaped multi false rest)
      | _ => none
    else if c == '\n' then
      if multi then prepend ['\n'] (readEscaped multi false cs) else none
    else if c == '"' then
      if multi then
        match cs with
        | '"' :: '"' :: '"' :: '"' :: rest => some (['"', '"'], rest)
        | '"' :: '"' :: '"' :: rest => some (['"'], rest)
        | '"' :: '"' :: rest => some ([], rest)
        | _ => prepend ['"'] (readEscaped multi false cs)
      else some ([], cs)
    else if c == '\\' then
      if multi && continuesLine cs then readEscaped multi true cs
      else
        match cs with
        | 'b' :: rest => prepend [Char.ofNat 8] (readEscaped multi false rest)
        | 't' :: rest => prepend ['\t'] (readEscaped multi false rest)
        | 'n' :: rest => prepend ['\n'] (readEscaped multi false rest)
        | 'f' :: rest => prepend [Char.ofNat 12] (readEscaped multi false rest)
        | 'r' :: rest => prepend ['\r'] (readEscaped multi false rest)
        | '"' :: rest => prepend ['"'] (readEscaped multi false rest)
        | '\\' :: rest => prepend ['\\'] (readEscaped multi false rest)
        | 'u' :: d1 :: d2 :: d3 :: d4 :: rest =>
          match scalar? [d1, d2, d3, d4] with
          | some u => prepend [u] (readEscaped multi false rest)
          | none => none
        | 'U' :: d1 :: d2 :: d3 :: d4 :: d5 :: d6 :: d7 :: d8 :: rest =>
          match scalar? [d1, d2, d3, d4, d5, d6, d7, d8] with
          | some u => prepend [u] (readEscaped multi false rest)
          | none => none
        | _ => none
    else if isPrintable c then prepend [c] (readEscaped multi false cs)
    else none

/-- Read the rest of a string without escapes whose opening quotes are read. -/
def readLiteral (multi : Bool) : List Char → Option (List Char × List Char)
  | [] => none
  | c :: cs =>
    if c == '\'' then
      if multi then
        match cs with
        | '\'' :: '\'' :: '\'' :: '\'' :: rest => some (['\'', '\''], rest)
        | '\'' :: '\'' :: '\'' :: rest => some (['\''], rest)
        | '\'' :: '\'' :: rest => some ([], rest)
        | _ => prepend ['\''] (readLiteral multi cs)
      else some ([], cs)
    else if c == '\n' then
      if multi then prepend ['\n'] (readLiteral multi cs) else none
    else if c == '\r' then
      match cs with
      | '\n' :: rest => if multi then prepend ['\n'] (readLiteral multi rest) else none
      | _ => none
    else if isPrintable c then prepend [c] (readLiteral multi cs)
    else none

/-- The text without one line break in front, which a string of several lines does not count. -/
def skipLineBreak (cs : List Char) : List Char := (lineBreak? cs).getD cs

/-- Read the string at the head of a text. -/
def readString? (cs : List Char) : Option (List Char × List Char) :=
  match cs with
  | '"' :: '"' :: '"' :: rest => readEscaped true false (skipLineBreak rest)
  | '"' :: rest => readEscaped false false rest
  | '\'' :: '\'' :: '\'' :: rest => readLiteral true (skipLineBreak rest)
  | '\'' :: rest => readLiteral false rest
  | _ => none

/-- Read one part of a key. -/
def readKeyPart? (cs : List Char) : Option (List Char × List Char) :=
  match cs with
  | '"' :: rest => readEscaped false false rest
  | '\'' :: rest => readLiteral false rest
  | _ =>
    let part := cs.takeWhile isBareKeyChar
    if part.isEmpty then none else some (part, cs.dropWhile isBareKeyChar)

/-- Read a key: its parts with points between them and spaces around them. -/
def readKey? : Nat → List Char → Option (List String × List Char)
  | 0, _ => none
  | steps + 1, cs =>
    (readKeyPart? (skipSpace cs)).bind fun part =>
      let name := String.ofList part.1
      match skipSpace part.2 with
      | '.' :: rest => (readKey? steps rest).map fun p => (name :: p.1, p.2)
      | rest => some ([name], rest)

/-- Read digits between which single underscores may stand. -/
def readDigits (isDigit : Char → Bool) : List Char → List Char × List Char
  | [] => ([], [])
  | '_' :: d :: cs =>
    if isDigit d then
      let more := readDigits isDigit cs
      (d :: more.1, more.2)
    else ([], '_' :: d :: cs)
  | c :: cs =>
    if isDigit c then
      let more := readDigits isDigit cs
      (c :: more.1, more.2)
    else ([], c :: cs)

/-- Read digits of which the first has no underscore in front. -/
def readDigits? (isDigit : Char → Bool) (cs : List Char) : Option (List Char × List Char) :=
  match cs with
  | [] => none
  | c :: _ => if isDigit c then some (readDigits isDigit cs) else none

/-- The sign at the head of a text, with whether it is minus. -/
def readSign (cs : List Char) : Bool × List Char :=
  match cs with
  | '-' :: rest => (true, rest)
  | '+' :: rest => (false, rest)
  | _ => (false, cs)

/-- Read the digits of a decimal number without a leading zero. -/
def readWhole? (cs : List Char) : Option (List Char × List Char) :=
  match cs with
  | '0' :: rest => some (['0'], rest)
  | _ => readDigits? Text.isDigit cs

/-- An integer, unless 64 bits with sign do not hold it. -/
def integer? (negative : Bool) (n : Nat) : Option Toml :=
  if negative then if n ≤ Nat.pow 2 63 then some (.integer (-(n : Int))) else none
  else if n < Nat.pow 2 63 then some (.integer n) else none

/-- Read an integer: decimal with a sign, or hexadecimal, octal or binary after its mark. -/
def readInteger? (cs : List Char) : Option (Toml × List Char) :=
  let based (base : Nat) (isDigit : Char → Bool) (rest : List Char) : Option (Toml × List Char) :=
    (readDigits? isDigit rest).bind fun p =>
      let n := p.1.foldl (fun n c => base * n + ((hexValue? [c]).getD 0)) 0
      (integer? false n).map fun v => (v, p.2)
  match cs with
  | '0' :: 'x' :: rest => based 16 Text.isHexDigit rest
  | '0' :: 'o' :: rest => based 8 (fun c => '0' ≤ c && c ≤ '7') rest
  | '0' :: 'b' :: rest => based 2 (fun c => c == '0' || c == '1') rest
  | _ =>
    let signed := readSign cs
    (readWhole? signed.2).bind fun p =>
      (integer? signed.1 (Nat.ofDigitChars 10 p.1 0)).map fun v => (v, p.2)

/-- Read the exponent of a float: its digits with their sign. -/
def readExponent? (cs : List Char) : Option ((Bool × List Char) × List Char) :=
  match cs with
  | [] => none
  | c :: rest =>
    if c == 'e' || c == 'E' then
      let signed := readSign rest
      (readDigits? Text.isDigit signed.2).map fun p => ((signed.1, p.1), p.2)
    else none

/-- Whether a decimal is too great for a double: at least `2 ^ 1024 - 2 ^ 970`. Exponents of more
than five digits are decided by whether the decimal is zero. -/
def overflows (digits : List Char) (point : Int) : Bool :=
  let n := Nat.ofDigitChars 10 digits 0
  if n == 0 || point < -100000 then false
  else if point > 100000 then true
  else
    let least := Nat.pow 2 1024 - Nat.pow 2 970
    let scale := Nat.pow 10 point.natAbs
    if point < 0 then n ≥ least * scale else n * scale ≥ least

/-- Read a float: a decimal with a fraction or an exponent, or a word for infinity or no number. A
decimal must not be so great that it is read as infinity. -/
def readFloat? (cs : List Char) : Option (Toml × List Char) :=
  let signed := readSign cs
  let float (rest : List Char) : Toml :=
    .float (String.ofList (cs.take (cs.length - rest.length)))
  match signed.2 with
  | 'i' :: 'n' :: 'f' :: rest => some (float rest, rest)
  | 'n' :: 'a' :: 'n' :: rest => some (float rest, rest)
  | _ =>
    (readWhole? signed.2).bind fun whole =>
      let fraction : Option (List Char × List Char) :=
        match whole.2 with
        | '.' :: rest => readDigits? Text.isDigit rest
        | _ => none
      let rest := (fraction.map (·.2)).getD whole.2
      let exponent := readExponent? rest
      if fraction.isNone && exponent.isNone then none
      else
        let places := (fraction.map (·.1)).getD []
        let power : Int :=
          match exponent with
          | none => 0
          | some ((minus, digits), _) =>
            let n : Int := Nat.ofDigitChars 10 digits 0
            if minus then -n else n
        if !signed.1 && overflows (whole.1 ++ places) (power - places.length) then none
        else
          let rest := (exponent.map (·.2)).getD rest
          some (float rest, rest)

/-- Read a number of exactly `count` digits within bounds. -/
def readField? (count low high : Nat) (cs : List Char) : Option (Nat × List Char) :=
  (Text.readDecimal? (cs.take count)).bind fun n =>
    if (cs.take count).length == count && low ≤ n && n ≤ high then some (n, cs.drop count) else none

/-- What follows a character at the head of a text. -/
def char? (c : Char) (cs : List Char) : Option (List Char) := Text.after? [c] cs

/-- The number of days of a month. -/
def daysOf (year month : Nat) : Nat :=
  if month == 2 then
    if year % 4 == 0 && (year % 100 != 0 || year % 400 == 0) then 29 else 28
  else if month == 4 || month == 6 || month == 9 || month == 11 then 30
  else 31

/-- What follows a date. -/
def skipDate? (cs : List Char) : Option (List Char) := do
  let (year, cs) ← readField? 4 0 9999 cs
  let cs ← char? '-' cs
  let (month, cs) ← readField? 2 1 12 cs
  let cs ← char? '-' cs
  let (_, cs) ← readField? 2 1 (daysOf year month) cs
  return cs

/-- What follows a time of day. -/
def skipTime? (cs : List Char) : Option (List Char) := do
  let (_, cs) ← readField? 2 0 23 cs
  let cs ← char? ':' cs
  let (_, cs) ← readField? 2 0 59 cs
  let cs ← char? ':' cs
  let (_, cs) ← readField? 2 0 60 cs
  match cs with
  | '.' :: rest =>
    let digits := rest.takeWhile Text.isDigit
    if digits.isEmpty then return cs else return rest.dropWhile Text.isDigit
  | _ => return cs

/-- What follows an offset from UTC. -/
def skipOffset? (cs : List Char) : Option (List Char) :=
  match cs with
  | [] => none
  | c :: rest =>
    if c == 'Z' || c == 'z' then some rest
    else if c == '+' || c == '-' then do
      let (_, cs) ← readField? 2 0 23 rest
      let cs ← char? ':' cs
      let (_, cs) ← readField? 2 0 59 cs
      return cs
    else none

/-- Read a date, a time, or both with or without an offset. -/
def readDateTime? (cs : List Char) : Option (Toml × List Char) :=
  let written (rest : List Char) : Toml × List Char :=
    (.dateTime (String.ofList (cs.take (cs.length - rest.length))), rest)
  match skipDate? cs with
  | some afterDate =>
    let time : Option (List Char) :=
      match afterDate with
      | c :: rest => if c == 'T' || c == 't' || c == ' ' then skipTime? rest else none
      | [] => none
    match time with
    | none => some (written afterDate)
    | some afterTime => some (written ((skipOffset? afterTime).getD afterTime))
  | none => (skipTime? cs).map written

/-- Read a value that starts like a number. -/
def readNumber? (cs : List Char) : Option (Toml × List Char) :=
  ((readDateTime? cs).or (readFloat? cs)).or (readInteger? cs)

mutual

/-- Read a value; `depth` more arrays and inline tables may be opened. -/
def readValue? : Nat → Nat → List Char → Option (Toml × List Char)
  | 0, _, _ => none
  | steps + 1, depth, cs =>
    match cs with
    | 't' :: 'r' :: 'u' :: 'e' :: rest => some (.boolean true, rest)
    | 'f' :: 'a' :: 'l' :: 's' :: 'e' :: rest => some (.boolean false, rest)
    | '[' :: rest =>
      match depth with
      | 0 => none
      | depth + 1 => (readItems? steps depth rest).map fun p => (.array p.1, p.2)
    | '\x7b' :: rest =>
      match depth with
      | 0 => none
      | depth + 1 =>
        match skipSpace rest with
        | '\x7d' :: rest => some (.table [], rest)
        | rest =>
          (readMembers? steps depth [] rest).map fun p => (.table (freezeMembers p.1), p.2)
    | c :: _ =>
      if c == '"' || c == '\'' then
        (readString? cs).map fun p => (.string (String.ofList p.1), p.2)
      else readNumber? cs
    | [] => none

/-- Read the items of an array and its closing bracket. -/
def readItems? : Nat → Nat → List Char → Option (List Toml × List Char)
  | 0, _, _ => none
  | steps + 1, depth, cs =>
    match skipLines cs.length cs with
    | ']' :: rest => some ([], rest)
    | cs =>
      (readValue? steps depth cs).bind fun v =>
        match skipLines v.2.length v.2 with
        | ',' :: rest => (readItems? steps depth rest).map fun p => (v.1 :: p.1, p.2)
        | ']' :: rest => some ([v.1], rest)
        | _ => none

/-- Read the members of an inline table that has at least one, and its closing brace. -/
def readMembers? : Nat → Nat → List (String × Node) → List Char →
    Option (List (String × Node) × List Char)
  | 0, _, _, _ => none
  | steps + 1, depth, members, cs => do
    let (key, cs) ← readKey? maxDepth cs
    let cs ← char? '=' cs
    let (v, cs) ← readValue? steps depth (skipSpace cs)
    let members ← insertDotted v key members
    match skipSpace cs with
    | ',' :: rest => readMembers? steps depth members rest
    | '\x7d' :: rest => some (members, rest)
    | _ => none

end

/-- Apply a change to the table that the parents of a key lead to. -/
def changeParent (key : List String)
    (change : String → List (String × Node) → Option (List (String × Node)))
    (root : List (String × Node)) : Option (List (String × Node)) :=
  match key.getLast? with
  | none => none
  | some last => changeAt (change last) key.dropLast root

/-- Read the lines of a document into its root table; `path` leads to the table whose header came
last. -/
def readLines? : Nat → List String → List (String × Node) → List Char →
    Option (List (String × Node))
  | 0, _, _, _ => none
  | steps + 1, path, root, cs =>
    match skipSpace cs with
    | [] => some root
    | '[' :: '[' :: rest => do
      let (key, rest) ← readKey? maxDepth rest
      let rest ← Text.after? [']', ']'] rest
      let rest ← endLine? rest
      let root ← changeParent key openTableOfArray root
      readLines? steps key root rest
    | '[' :: rest => do
      let (key, rest) ← readKey? maxDepth rest
      let rest ← char? ']' rest
      let rest ← endLine? rest
      let root ← changeParent key openTable root
      readLines? steps key root rest
    | c :: rest =>
      if c == '#' || c == '\n' || c == '\r' then
        (endLine? (c :: rest)).bind fun rest => readLines? steps path root rest
      else do
        let (key, rest) ← readKey? maxDepth (c :: rest)
        let rest ← char? '=' rest
        let (v, rest) ← readValue? (2 * rest.length + 2) maxDepth (skipSpace rest)
        let rest ← endLine? rest
        let root ← changeAt (insertDotted v key) path root
        readLines? steps path root rest

/-- Read a document: its root table. A byte order mark may stand in front. -/
def parse? (s : String) : Option (List (String × Toml)) :=
  let cs := s.toList
  let cs := (char? (Char.ofNat 0xFEFF) cs).getD cs
  (readLines? (cs.length + 1) [] [] cs).map freezeMembers

end RollupInput.Toml
