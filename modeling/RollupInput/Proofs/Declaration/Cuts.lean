import RollupInput.Declaration.Params
import RollupInput.Proofs.Mapped

/-!
# The cuts of a parameter

Reading a parameter falls into three steps. Its text is cut into a name, the base of its type and
array suffixes, which takes no notice of structs. Then the base is resolved, and only this step
looks at structs or reads fields. At last the suffixes are put on. What is proved of readings goes
along these steps and does not open the reader.
-/

namespace RollupInput.Declaration

open Abi

/-- What the text of a parameter is cut into. -/
structure Cut where
  /-- The name, if one is written. -/
  name : Option (List Char)
  /-- The base of the type. -/
  base : List Char
  /-- The texts between the brackets of the array suffixes. -/
  suffixes : List (List Char)
  deriving DecidableEq

/-- Cut the text of a parameter. -/
def cutParam (written : List Char) : Except Fault Cut :=
  let text := Text.trim written
  if text.isEmpty then .error .emptyParameter
  else
    match cutType? text with
    | none => .error (.unbalanced text)
    | some (typeText, rest) =>
      match readName text rest with
      | .error e => .error e
      | .ok name =>
        match cutSuffixes? typeText with
        | none => .error (.unbalanced typeText)
        | some (base, suffixes) => .ok ⟨name, base, suffixes⟩

/-- The base of the type of a parameter, whatever follows the type. -/
def baseOf? (written : List Char) : Option (List Char) :=
  (cutType? (Text.trim written)).bind fun p => (cutSuffixes? p.1).map Prod.fst

/-- The texts of the fields between the parentheses of a tuple. -/
def tupleFields? (base : List Char) : Option (List (List Char)) :=
  (tupleInner? base).map fun inner =>
    if (Text.trim inner).isEmpty then [] else cutAtSeparators ',' inner

/-- The parameter that a resolved base makes with the suffixes and the name of a cut. -/
def Cut.param (c : Cut) (resolved : AbiType × List Param) : Except Fault Param :=
  (withSuffixes resolved.1 c.suffixes).map fun t =>
    { name := c.name.map String.ofList, kind := t.text, type := t, components := resolved.2 }

/-- Resolve the base of a type among structs that may be used and structs that are open. -/
def readBase (opened : List (List Char)) (available : List StructDef) (base : List Char) :
    Except Fault (AbiType × List Param) :=
  match tupleFields? base with
  | some fields => (readParams opened available fields).map fieldsAsTuple
  | none =>
    match takeStruct? base available with
    | some (d, others) => (readParams (base :: opened) others d.fields).map fieldsAsTuple
    | none =>
      if opened.contains base then .error (.structCycle base)
      else (elementary base).map fun t => (t, [])

/-- Reading a parameter is cutting its text, resolving the base, and putting the suffixes on. -/
theorem readParam_eq (opened : List (List Char)) (available : List StructDef)
    (written : List Char) :
    readParam opened available written =
      cutParam written >>= fun c => readBase opened available c.base >>= c.param := by
  rw [readParam]
  unfold cutParam
  dsimp only
  by_cases hempty : (Text.trim written).isEmpty = true
  · rw [if_pos hempty, if_pos hempty]
    rfl
  · rw [if_neg hempty, if_neg hempty]
    cases cutType? (Text.trim written) with
    | none => rfl
    | some typed =>
      dsimp only
      cases readName (Text.trim written) typed.2 with
      | error e => rfl
      | ok name =>
        dsimp only
        cases cutSuffixes? typed.1 with
        | none => rfl
        | some cut =>
          unfold readBase tupleFields?
          dsimp only [bind, Except.bind]
          cases tupleInner? cut.1 with
          | some inner =>
            dsimp only [Option.map_some]
            by_cases hblank : (Text.trim inner).isEmpty = true
            · rw [if_pos hblank, if_pos hblank, readParams]
              rfl
            · rw [if_neg hblank, if_neg hblank]
              cases readParams opened available (cutAtSeparators ',' inner) <;> rfl
          | none =>
            dsimp only [Option.map_none]
            cases takeStruct? cut.1 available with
            | some taken =>
              dsimp only
              cases readParams (cut.1 :: opened) taken.2 taken.1.fields <;> rfl
            | none =>
              dsimp only
              by_cases hopened : opened.contains cut.1 = true
              · rw [if_pos hopened]
              · rw [if_neg hopened]
                cases elementary cut.1 <;> rfl

/-- A text that is cut has a type that is cut into a base and suffixes, and a name behind it. -/
theorem cuts_of_cutParam {written : List Char} {c : Cut} (h : cutParam written = .ok c) :
    ∃ typeText rest, cutType? (Text.trim written) = some (typeText, rest) ∧
      readName (Text.trim written) rest = .ok c.name ∧
      cutSuffixes? typeText = some (c.base, c.suffixes) := by
  unfold cutParam at h
  dsimp only at h
  split at h
  · cases h
  · split at h
    · cases h
    · rename_i typeText rest htype
      split at h
      · cases h
      · rename_i name hname
        split at h
        · cases h
        · rename_i base suffixes hsuffixes
          cases h
          exact ⟨typeText, rest, htype, hname, hsuffixes⟩

/-- The base that is cut out of a text is the base of its type. -/
theorem baseOf?_of_cutParam {written : List Char} {c : Cut} (h : cutParam written = .ok c) :
    baseOf? written = some c.base := by
  obtain ⟨typeText, rest, htype, -, hsuffixes⟩ := cuts_of_cutParam h
  unfold baseOf?
  rw [htype, Option.bind_some, hsuffixes]
  rfl

/-- A base is no longer than the text out of which it is cut. -/
theorem length_base_le {written : List Char} {c : Cut} (h : cutParam written = .ok c) :
    c.base.length ≤ written.length := by
  obtain ⟨typeText, rest, htype, -, hsuffixes⟩ := cuts_of_cutParam h
  calc c.base.length ≤ typeText.length := length_cutSuffixes_le hsuffixes
    _ ≤ (Text.trim written).length := length_cutTypeFrom_le htype
    _ ≤ written.length := length_trim_le written

/-- The fields of a tuple weigh less than its text. -/
theorem weight_tupleFields_le {base : List Char} {fields : List (List Char)}
    (h : tupleFields? base = some fields) : weight fields + 3 ≤ 3 * base.length := by
  obtain ⟨inner, hinner, rfl⟩ := Option.map_eq_some_iff.mp h
  have hlength := length_tupleInner_le hinner
  split
  · rw [weight]
    omega
  · rw [weight_cutAtSeparators]
    omega

end RollupInput.Declaration
