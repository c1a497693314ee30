import RollupInput.Declaration.Brackets
import RollupInput.Declaration.Fault

/-!
# Struct definitions

Definitions such as `struct Point { int x; int y; }` may stand anywhere in a declaration. They are
taken out of it before its parameters are read. The keyword counts only as a whole word, and the
first closing brace ends a body.
-/

namespace RollupInput.Declaration

/-- A definition of a struct. -/
structure StructDef where
  /-- The name. -/
  name : List Char
  /-- The fields as they are written, without blanks around them. -/
  fields : List (List Char)
  deriving DecidableEq, Repr

/-- The keyword of a definition. -/
def keyword : List Char := ['s', 't', 'r', 'u', 'c', 't']

/-- Whether a text starts with a character that an identifier may hold. -/
def startsInWord (cs : List Char) : Bool :=
  match cs with
  | [] => false
  | c :: _ => Text.isIdentifierChar c

/-- The text in front of the first keyword and the text after it; `inWord` tells whether the text
continues a word. -/
def cutAtKeyword? (inWord : Bool) : List Char → Option (List Char × List Char)
  | [] => none
  | c :: cs =>
    let after := (c :: cs).drop keyword.length
    if !inWord && keyword.isPrefixOf (c :: cs) && !startsInWord after then some ([], after)
    else (cutAtKeyword? (Text.isIdentifierChar c) cs).map fun p => (c :: p.1, p.2)

/-- Read the rest of a definition after its keyword: the definition and what follows it. -/
def readStruct (cs : List Char) : Except Fault (StructDef × List Char) :=
  let name := Text.trim (cs.takeWhile (· != '\x7b'))
  match cs.dropWhile (· != '\x7b') with
  | [] => .error .structWithoutBody
  | _ :: body =>
    if !Text.isIdentifier name then .error (.structName name)
    else
      match body.dropWhile (· != '\x7d') with
      | [] => .error (.structUnclosed name)
      | _ :: rest =>
        let fields := (cutAtSeparators ';' (body.takeWhile (· != '\x7d'))).map Text.trim
        let fields := fields.filter (!·.isEmpty)
        if fields.isEmpty then .error (.structEmpty name) else .ok (⟨name, fields⟩, rest)

theorem length_cutAtKeyword_le {inWord : Bool} {cs before after : List Char}
    (h : cutAtKeyword? inWord cs = some (before, after)) : after.length < cs.length := by
  induction cs generalizing inWord before with
  | nil => simp [cutAtKeyword?] at h
  | cons c cs ih =>
    simp only [cutAtKeyword?] at h
    split at h
    · obtain ⟨-, rfl⟩ := by simpa using h
      rw [List.length_drop]
      simp only [keyword, List.length_cons, List.length_nil]
      omega
    · obtain ⟨p, hp, hq⟩ := Option.map_eq_some_iff.1 h
      obtain ⟨-, rfl⟩ := Prod.mk.injEq .. ▸ hq
      exact Nat.lt_succ_of_lt (ih hp)

theorem length_readStruct_le {cs rest : List Char} {d : StructDef}
    (h : readStruct cs = .ok (d, rest)) : rest.length ≤ cs.length := by
  simp only [readStruct] at h
  split at h
  · simp at h
  · next body hbody =>
    have hb := length_dropWhile_le (· != '\x7b') cs
    rw [hbody] at hb
    split at h
    · simp at h
    · split at h
      · simp at h
      · next r hr =>
        have hr' := length_dropWhile_le (· != '\x7d') body
        rw [hr] at hr'
        split at h
        · simp at h
        · obtain ⟨-, rfl⟩ := by simpa using h
          simp at hb hr'
          omega

/-- Take all definitions out of a declaration and put them in front of the ones known before. No
name may be defined twice. -/
def takeStructs (known : List StructDef) (cs : List Char) :
    Except Fault (List StructDef × List Char) :=
  match _hc : cutAtKeyword? false cs with
  | none => .ok (known, cs)
  | some (before, after) =>
    match _hs : readStruct after with
    | .error e => .error e
    | .ok (d, rest) =>
      if known.any (·.name == d.name) then .error (.structRepeated d.name)
      else (takeStructs (d :: known) rest).map fun p => (p.1, before ++ p.2)
termination_by cs.length
decreasing_by
  have h₁ := length_cutAtKeyword_le _hc
  have h₂ := length_readStruct_le _hs
  omega

end RollupInput.Declaration
