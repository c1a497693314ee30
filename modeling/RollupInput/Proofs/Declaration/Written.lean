import RollupInput.Declaration.Params
import RollupInput.Proofs.Text.Blanks

/-!
# Written parameters

The forms in which parameters are written: types with array suffixes, tuples with or without the
word in front, modifiers and names, and all blanks that may stand between them. A written
parameter has a text and, if its elementary types are known, a parameter that the text stands for;
the blanks, the word and the modifiers make no difference to the parameter. This is specification
only: nothing that reads declarations calls it.
-/

namespace RollupInput.Declaration

open Abi

/-- The names of the elementary types. `uint` and `int` mean 256 bits. -/
def elementaryTypes : List (List Char × AbiType) :=
  [("address".toList, .address), ("bool".toList, .bool), ("function".toList, .function),
    ("bytes".toList, .bytes), ("string".toList, .string), ("uint".toList, .uint 256),
    ("int".toList, .int 256)] ++
  (List.range 32).flatMap fun k =>
    [("uint".toList ++ Text.decimal (8 * k + 8), .uint (8 * k + 8)),
      ("int".toList ++ Text.decimal (8 * k + 8), .int (8 * k + 8)),
      ("bytes".toList ++ Text.decimal (k + 1), .fixedBytes (k + 1))]

/-- The elementary type of a name. -/
def elementaryType? (name : List Char) : Option AbiType := elementaryTypes.lookup name

/-- An array suffix with the blanks inside its brackets. -/
structure WrittenSuffix where
  /-- The blanks after the opening bracket. -/
  before : List Char
  /-- The size, if one is written. -/
  size : Suffix
  /-- The blanks in front of the closing bracket. -/
  after : List Char

namespace WrittenSuffix

/-- The text between the brackets. -/
def content (s : WrittenSuffix) : List Char :=
  s.before ++ ((s.size.map Text.decimal).getD [] ++ s.after)

/-- The text of a suffix. -/
def text (s : WrittenSuffix) : List Char := '[' :: (s.content ++ [']'])

/-- Whether only blanks stand around the size, and the size is a 64 bit number. -/
structure IsLaidOut (s : WrittenSuffix) : Prop where
  /-- Blanks stand in front of the size. -/
  before : Text.IsGap s.before
  /-- Blanks stand behind the size. -/
  after : Text.IsGap s.after
  /-- The size is in range. -/
  size : ∀ n ∈ s.size, n < wordLimit

instance (s : WrittenSuffix) : Decidable s.IsLaidOut :=
  decidable_of_iff (Text.IsGap s.before ∧ Text.IsGap s.after ∧ ∀ n ∈ s.size, n < wordLimit)
    ⟨fun h => ⟨h.1, h.2.1, h.2.2⟩, fun h => ⟨h.before, h.after, h.size⟩⟩

end WrittenSuffix

/-- A word behind a type, with the blanks in front of it. -/
structure WrittenWord where
  /-- The blanks in front of the word. -/
  gap : List Char
  /-- The word. -/
  word : List Char

/-- The text of a word with the blanks in front of it. -/
def WrittenWord.text (w : WrittenWord) : List Char := w.gap ++ w.word

/-- What stands around the base of a parameter's type. -/
structure Surroundings where
  /-- The blanks in front of the type. -/
  lead : List Char
  /-- The array suffixes of the type. -/
  suffixes : List WrittenSuffix
  /-- The modifiers behind the type. -/
  modifiers : List WrittenWord
  /-- The name behind the modifiers. -/
  name : Option WrittenWord
  /-- The blanks behind all else. -/
  trail : List Char

namespace Surroundings

/-- The words behind the type: modifiers, and the name if there is one. -/
def words (a : Surroundings) : List WrittenWord := a.modifiers ++ a.name.toList

/-- The type with a given base. -/
def typeText (a : Surroundings) (base : List Char) : List Char :=
  base ++ a.suffixes.flatMap WrittenSuffix.text

/-- The text of a parameter with a given base. -/
def text (a : Surroundings) (base : List Char) : List Char :=
  a.lead ++ (a.typeText base ++ a.words.flatMap WrittenWord.text ++ a.trail)

/-- The parameter whose type has a given base: the suffixes are put on it from left to right. -/
def param (a : Surroundings) (base : AbiType) (components : List Param) : Param :=
  let type := (a.suffixes.map WrittenSuffix.size).foldl AbiType.suffixed base
  { name := a.name.map fun w => String.ofList w.word, kind := type.text, type := type,
    components := components }

/-- Whether blanks, modifiers and a name are where they may stand. A name is an identifier other
than the words with a meaning of their own. -/
structure IsLaidOut (a : Surroundings) : Prop where
  /-- Blanks stand in front of the type. -/
  lead : Text.IsGap a.lead
  /-- Blanks stand behind all else. -/
  trail : Text.IsGap a.trail
  /-- The suffixes have blanks around their sizes. -/
  suffixes : ∀ s ∈ a.suffixes, s.IsLaidOut
  /-- A blank stands in front of each word. -/
  gaps : ∀ w ∈ a.words, Text.IsGap w.gap ∧ w.gap ≠ []
  /-- The modifiers are known. -/
  modifiers : ∀ w ∈ a.modifiers, w.word ∈ Declaration.modifiers
  /-- The name can be one. -/
  name : ∀ w ∈ a.name, Text.isIdentifier w.word = true ∧ w.word ∉ Declaration.modifiers ∧
    w.word ≠ keyword

instance (a : Surroundings) : Decidable a.IsLaidOut :=
  decidable_of_iff (Text.IsGap a.lead ∧ Text.IsGap a.trail ∧ (∀ s ∈ a.suffixes, s.IsLaidOut) ∧
      (∀ w ∈ a.words, Text.IsGap w.gap ∧ w.gap ≠ []) ∧
      (∀ w ∈ a.modifiers, w.word ∈ Declaration.modifiers) ∧
      ∀ w ∈ a.name, Text.isIdentifier w.word = true ∧ w.word ∉ Declaration.modifiers ∧
        w.word ≠ keyword)
    ⟨fun h => ⟨h.1, h.2.1, h.2.2.1, h.2.2.2.1, h.2.2.2.2.1, h.2.2.2.2.2⟩,
      fun h => ⟨h.lead, h.trail, h.suffixes, h.gaps, h.modifiers, h.name⟩⟩

end Surroundings

/-- A parameter as it is written. -/
inductive Written where
  /-- One whose type has the name of an elementary type. -/
  | elementary (type : List Char) (around : Surroundings)
  /-- One whose type is the tuple of no fields, with blanks between the parentheses. -/
  | emptyTuple (marked : Bool) (gap : List Char) (around : Surroundings)
  /-- One whose type is a tuple of fields, with or without the word in front. -/
  | tuple (marked : Bool) (fields : List Written) (around : Surroundings)

/-- A text between parentheses, with or without the word for tuples in front. -/
def tupleText (marked : Bool) (inner : List Char) : List Char :=
  (if marked then ['t', 'u', 'p', 'l', 'e'] else []) ++ '(' :: (inner ++ [')'])

mutual

/-- The text of a written parameter. -/
def Written.text : Written → List Char
  | .elementary type around => around.text type
  | .emptyTuple marked gap around => around.text (tupleText marked gap)
  | .tuple marked fields around =>
    around.text (tupleText marked (Text.join [','] (texts fields)))

/-- The texts of written parameters. -/
def texts : List Written → List (List Char)
  | [] => []
  | w :: rest => w.text :: texts rest

end

mutual

/-- The parameter that is written, if `typeOf` gives a type for each name of an elementary type. -/
def Written.param? (typeOf : List Char → Option AbiType) : Written → Option Param
  | .elementary type around => (typeOf type).map fun t => around.param t []
  | .emptyTuple _ _ around => some (around.param (.tuple []) [])
  | .tuple _ fields around =>
    (params? typeOf fields).map fun components =>
      around.param (.tuple (components.map Param.type)) components

/-- The parameters that are written. -/
def params? (typeOf : List Char → Option AbiType) : List Written → Option (List Param)
  | [] => some []
  | w :: rest => (w.param? typeOf).bind fun p => (params? typeOf rest).map (p :: ·)

end

mutual

/-- Whether blanks, modifiers and names are where they may stand, throughout a parameter. -/
def Written.IsLaidOut : Written → Prop
  | .elementary _ around => around.IsLaidOut
  | .emptyTuple _ gap around => Text.IsGap gap ∧ around.IsLaidOut
  | .tuple _ fields around => fields ≠ [] ∧ AreLaidOut fields ∧ around.IsLaidOut

/-- Whether this is so in each of some parameters. -/
def AreLaidOut : List Written → Prop
  | [] => True
  | w :: rest => w.IsLaidOut ∧ AreLaidOut rest

end

mutual

/-- Whether a parameter is laid out can be decided. -/
instance Written.decidableIsLaidOut : (w : Written) → Decidable w.IsLaidOut
  | .elementary _ around => inferInstanceAs (Decidable around.IsLaidOut)
  | .emptyTuple _ gap around => inferInstanceAs (Decidable (Text.IsGap gap ∧ around.IsLaidOut))
  | .tuple _ fields around =>
    have := decidableAreLaidOut fields
    inferInstanceAs (Decidable (¬fields = [] ∧ AreLaidOut fields ∧ around.IsLaidOut))

/-- Whether some parameters are laid out can be decided. -/
instance decidableAreLaidOut : (ws : List Written) → Decidable (AreLaidOut ws)
  | [] => .isTrue trivial
  | w :: rest =>
    have := Written.decidableIsLaidOut w
    have := decidableAreLaidOut rest
    inferInstanceAs (Decidable (w.IsLaidOut ∧ AreLaidOut rest))

end

mutual

/-- The names of elementary types in a parameter. -/
def Written.typeNames : Written → List (List Char)
  | .elementary type _ => [type]
  | .emptyTuple _ _ _ => []
  | .tuple _ fields _ => typeNamesOf fields

/-- The names of elementary types in some parameters. -/
def typeNamesOf : List Written → List (List Char)
  | [] => []
  | w :: rest => w.typeNames ++ typeNamesOf rest

end

/-- The text of a declaration of parameters. -/
def declaration (ws : List Written) : String := String.ofList (Text.join [','] (texts ws))

end RollupInput.Declaration
