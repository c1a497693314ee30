/-!
# Characters, trimming and words

Text is scanned as a list of characters. Blanks are the characters with the Unicode property
White_Space; identifiers are ASCII. Every function here is structurally recursive, so closed
instances compute.
-/

namespace RollupInput.Text

/-- A character with the Unicode property White_Space. -/
def isBlank (c : Char) : Bool :=
  let n := c.toNat
  (9 ≤ n && n ≤ 13) || n == 0x20 || n == 0x85 || n == 0xA0 || n == 0x1680 ||
    (0x2000 ≤ n && n ≤ 0x200A) || n == 0x2028 || n == 0x2029 || n == 0x202F || n == 0x205F ||
    n == 0x3000

/-- The text without its leading blanks. -/
def trimStart (cs : List Char) : List Char := cs.dropWhile isBlank

/-- The text without its trailing blanks. -/
def trimEnd (cs : List Char) : List Char := (cs.reverse.dropWhile isBlank).reverse

/-- The text without the blanks around it. -/
def trim (cs : List Char) : List Char := trimEnd (trimStart cs)

/-- The string without the blanks around it. -/
def trimmed (s : String) : String := String.ofList (trim s.toList)

/-- The trimmed string, unless nothing but blanks is there. -/
def nonBlank? (s : String) : Option String :=
  let t := trimmed s
  if t.isEmpty then none else some t

/-- Cut a text at every character that satisfies `p`; the cut characters are dropped. -/
def cutWhere (p : Char → Bool) : List Char → List (List Char)
  | [] => [[]]
  | c :: cs =>
    if p c then [] :: cutWhere p cs
    else
      match cutWhere p cs with
      | [] => [[c]]
      | w :: ws => (c :: w) :: ws

/-- The maximal runs of characters that are not blank, in order. -/
def words (cs : List Char) : List (List Char) := (cutWhere isBlank cs).filter (!·.isEmpty)

/-- The text after `pre`, if it starts with it. -/
def after? (pre cs : List Char) : Option (List Char) :=
  if pre.isPrefixOf cs then some (cs.drop pre.length) else none

/-- The text before `post`, if it ends with it. -/
def before? (post cs : List Char) : Option (List Char) :=
  if post.isSuffixOf cs then some (cs.take (cs.length - post.length)) else none

/-- A decimal digit of ASCII. -/
def isDigit (c : Char) : Bool := '0' ≤ c && c ≤ '9'

/-- A letter of ASCII. -/
def isLetter (c : Char) : Bool := ('a' ≤ c && c ≤ 'z') || ('A' ≤ c && c ≤ 'Z')

/-- A hexadecimal digit of ASCII, of either case. -/
def isHexDigit (c : Char) : Bool := isDigit c || ('a' ≤ c && c ≤ 'f') || ('A' ≤ c && c ≤ 'F')

/-- An upper case letter of ASCII becomes its lower case; all else stays. -/
def lowerAscii (c : Char) : Char :=
  if 'A' ≤ c && c ≤ 'Z' then Char.ofNat (c.toNat + 32) else c

/-- A lower case letter of ASCII becomes its upper case; all else stays. -/
def upperAscii (c : Char) : Char :=
  if 'a' ≤ c && c ≤ 'z' then Char.ofNat (c.toNat - 32) else c

/-- A character that may start an identifier. -/
def isIdentifierStart (c : Char) : Bool := isLetter c || c == '_' || c == '$'

/-- A character that may stand inside an identifier. -/
def isIdentifierChar (c : Char) : Bool := isIdentifierStart c || isDigit c

/-- Whether a text is an identifier: a letter, `_` or `$`, then any of these or digits. -/
def isIdentifier : List Char → Bool
  | [] => false
  | c :: cs => isIdentifierStart c && cs.all isIdentifierChar

/-- The decimal text of a natural number. -/
def decimal (n : Nat) : List Char := Nat.toDigits 10 n

/-- The number that a non-empty text of decimal digits writes. Leading zeros are allowed. -/
def readDecimal? (cs : List Char) : Option Nat :=
  if cs.isEmpty || !cs.all isDigit then none else some (Nat.ofDigitChars 10 cs 0)

/-- Texts joined with a separating text between neighbours. -/
def join (separator : List Char) : List (List Char) → List Char
  | [] => []
  | [cs] => cs
  | cs :: ds :: rest => cs ++ (separator ++ join separator (ds :: rest))

/-- Strings joined with a separator between neighbours. -/
def joinWith (separator : String) (parts : List String) : String :=
  String.ofList (join separator.toList (parts.map String.toList))

end RollupInput.Text
