import RollupInput.Text

/-!
# Cutting text at brackets

The three cuts that the syntax of parameter declarations needs: a list at its separators outside
of brackets, the type off the head of a parameter, and the array suffixes off the end of a type.
Each is one pass over the characters that keeps count of the open brackets.
-/

namespace RollupInput.Declaration

/-- A bracket of any of the three kinds that opens. -/
def opens (c : Char) : Bool := c == '(' || c == '[' || c == '\x7b'

/-- A bracket of any of the three kinds that closes. -/
def closes (c : Char) : Bool := c == ')' || c == ']' || c == '\x7d'

/-- Put a character in front of the first part. -/
def onFirst (c : Char) : List (List Char) → List (List Char)
  | [] => [[c]]
  | part :: rest => (c :: part) :: rest

/-- Cut a text at every separator outside of brackets, where `depth` more brackets have opened
than closed before it. A surplus of closing brackets makes the depth negative. The depth, which is
counted in 32 bits, is taken as unbounded: only texts of gibibytes of brackets go beyond that. -/
def cutFrom (separator : Char) (depth : Int) : List Char → List (List Char)
  | [] => [[]]
  | c :: cs =>
    if opens c then onFirst c (cutFrom separator (depth + 1) cs)
    else if closes c then onFirst c (cutFrom separator (depth - 1) cs)
    else if c == separator && depth == 0 then [] :: cutFrom separator depth cs
    else onFirst c (cutFrom separator depth cs)

/-- The parts of a text between the separators outside of brackets. -/
def cutAtSeparators (separator : Char) (cs : List Char) : List (List Char) :=
  cutFrom separator 0 cs

/-- Cut a text in front of the first blank outside of parentheses and square brackets, where
`depth` of them are open before it. Nothing comes of a text in which they do not balance. -/
def cutTypeFrom : Nat → List Char → Option (List Char × List Char)
  | depth, [] => if depth == 0 then some ([], []) else none
  | depth, c :: cs =>
    if c == '(' || c == '[' then (cutTypeFrom (depth + 1) cs).map fun p => (c :: p.1, p.2)
    else if c == ')' || c == ']' then
      match depth with
      | 0 => none
      | depth + 1 => (cutTypeFrom depth cs).map fun p => (c :: p.1, p.2)
    else if Text.isBlank c && depth == 0 then some ([], c :: cs)
    else (cutTypeFrom depth cs).map fun p => (c :: p.1, p.2)

/-- The type at the head of a parameter and what follows it. -/
def cutType? (cs : List Char) : Option (List Char × List Char) := cutTypeFrom 0 cs

theorem length_dropWhile_le (p : Char → Bool) (cs : List Char) :
    (cs.dropWhile p).length ≤ cs.length :=
  (List.dropWhile_sublist p).length_le

/-- Take the array suffixes off the end of a type that is given back to front: the base, still
back to front, and the texts between the brackets in order, in front of those found before. A
bracket with a parenthesis behind it belongs to a field of a tuple and ends the base. Nothing
comes of a closing bracket that no bracket opens. -/
def suffixesBackward (found : List (List Char)) (cs : List Char) :
    Option (List Char × List (List Char)) :=
  match cs with
  | ']' :: rest =>
    let size := rest.takeWhile (· != '[')
    match _h : rest.dropWhile (· != '[') with
    | [] => none
    | _ :: base =>
      if size.contains ')' then some (cs, found)
      else suffixesBackward (size.reverse :: found) base
  | _ => some (cs, found)
termination_by cs.length
decreasing_by
  have := length_dropWhile_le (· != '[') rest
  rw [_h] at this
  simp at this ⊢
  omega

/-- The base of a type, without blanks around it, and the texts between the brackets of its array
suffixes. -/
def cutSuffixes? (cs : List Char) : Option (List Char × List (List Char)) :=
  (suffixesBackward [] cs.reverse).map fun p => (Text.trim p.1.reverse, p.2)

/-- The text between the parentheses of a tuple, which the word `tuple` may stand in front of. -/
def tupleInner? (cs : List Char) : Option (List Char) :=
  let list := Text.trim ((Text.after? ['t', 'u', 'p', 'l', 'e'] cs).getD cs)
  (Text.after? ['('] list).bind (Text.before? [')'])

end RollupInput.Declaration
