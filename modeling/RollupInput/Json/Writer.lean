import RollupInput.Json.Value
import RollupInput.Text.Hex

/-!
# JSON text

Two layouts of a value: compact, without any blank, and indented by two spaces per level. In
strings only the quote, the backslash and the control characters below U+0020 are escaped.
-/

namespace RollupInput.Json

/-- The opening brace. -/
def braceOpen : Char := '\x7b'

/-- The closing brace. -/
def braceClose : Char := '\x7d'

/-- How a character stands inside a string. -/
def escapeChar (c : Char) : List Char :=
  if c == '"' then ['\\', '"']
  else if c == '\\' then ['\\', '\\']
  else if c == '\n' then ['\\', 'n']
  else if c == '\r' then ['\\', 'r']
  else if c == '\t' then ['\\', 't']
  else if c.toNat == 8 then ['\\', 'b']
  else if c.toNat == 12 then ['\\', 'f']
  else if c.toNat < 32 then
    ['\\', 'u', '0', '0', Text.Hex.digit (c.toNat / 16), Text.Hex.digit (c.toNat % 16)]
  else [c]

/-- A text between quotes. -/
def quoted (cs : List Char) : List Char := '"' :: (cs.flatMap escapeChar ++ ['"'])

mutual

/-- The compact text of a value. -/
def compact : Json → List Char
  | .null => ['n', 'u', 'l', 'l']
  | .bool true => ['t', 'r', 'u', 'e']
  | .bool false => ['f', 'a', 'l', 's', 'e']
  | .num n => n.text
  | .str s => quoted s.toList
  | .arr items => '[' :: compactItems items
  | .obj members => braceOpen :: compactMembers members

/-- The items of an array, up to and with its closing bracket. -/
def compactItems : List Json → List Char
  | [] => [']']
  | [v] => compact v ++ [']']
  | v :: w :: rest => compact v ++ ',' :: compactItems (w :: rest)

/-- The members of an object, up to and with its closing brace. -/
def compactMembers : List (String × Json) → List Char
  | [] => [braceClose]
  | [(key, v)] => quoted key.toList ++ ':' :: (compact v ++ [braceClose])
  | (key, v) :: w :: rest =>
    quoted key.toList ++ ':' :: (compact v ++ ',' :: compactMembers (w :: rest))

end

/-- A line break and the indentation of a level. -/
def newline (level : Nat) : List Char := '\n' :: List.replicate (2 * level) ' '

mutual

/-- The indented text of a value that stands at a level. Empty arrays and objects stay closed. -/
def indented (level : Nat) : Json → List Char
  | .null => ['n', 'u', 'l', 'l']
  | .bool true => ['t', 'r', 'u', 'e']
  | .bool false => ['f', 'a', 'l', 's', 'e']
  | .num n => n.text
  | .str s => quoted s.toList
  | .arr items => if items.isEmpty then ['[', ']'] else '[' :: indentedItems (level + 1) items
  | .obj members =>
    if members.isEmpty then [braceOpen, braceClose]
    else braceOpen :: indentedMembers (level + 1) members

/-- The items of an array on lines of their own, then its closing bracket. -/
def indentedItems (level : Nat) : List Json → List Char
  | [] => newline (level - 1) ++ [']']
  | [v] => newline level ++ (indented level v ++ (newline (level - 1) ++ [']']))
  | v :: w :: rest => newline level ++ (indented level v ++ ',' :: indentedItems level (w :: rest))

/-- The members of an object on lines of their own, then its closing brace. -/
def indentedMembers (level : Nat) : List (String × Json) → List Char
  | [] => newline (level - 1) ++ [braceClose]
  | [(key, v)] => newline level ++ (quoted key.toList ++ ':' :: ' ' ::
      (indented level v ++ (newline (level - 1) ++ [braceClose])))
  | (key, v) :: w :: rest => newline level ++ (quoted key.toList ++ ':' :: ' ' ::
      (indented level v ++ ',' :: indentedMembers level (w :: rest)))

end

/-- The compact text of a value as a string. -/
def text (v : Json) : String := String.ofList (compact v)

/-- The indented text of a value as a string. -/
def pretty (v : Json) : String := String.ofList (indented 0 v)

end RollupInput.Json
