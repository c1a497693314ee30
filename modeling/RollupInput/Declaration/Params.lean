import RollupInput.Abi.Param
import RollupInput.Declaration.Struct

/-!
# Parameter declarations

Declarations such as `uint[] ids, (address to, uint amount) order, bytes memory data` are read
into parameters with resolved types. Struct definitions of all declarations are visible in each
of them. Resolving a parameter ends because every step goes on to a shorter text, or to the
fields of a struct that is not available any more below it.
-/

namespace RollupInput.Declaration

open Abi

/-- The words that may stand between a type and a name without meaning anything. -/
def modifiers : List (List Char) :=
  ["indexed".toList, "memory".toList, "calldata".toList, "storage".toList]

/-- The name in what follows the type of the parameter `text`. -/
def readName (text rest : List Char) : Except Fault (Option (List Char)) :=
  match (Text.words rest).filter (!modifiers.contains ·) with
  | [] => .ok none
  | [name] => if Text.isIdentifier name then .ok (some name) else .error (.parameterName name)
  | _ :: extra :: _ => .error (.unexpectedWord extra text)

/-- The size that an array suffix gives between its brackets. It may have a plus in front. -/
def readSize (size : List Char) : Except Fault (Option Nat) :=
  let size := Text.trim size
  if size.isEmpty then .ok none
  else
    match Text.readDecimal? ((Text.after? ['+'] size).getD size) with
    | some n => if n < wordLimit then .ok (some n) else .error (.arraySize size)
    | none => .error (.arraySize size)

/-- The type with array suffixes put on it from left to right. -/
def withSuffixes (t : AbiType) : List (List Char) → Except Fault AbiType
  | [] => .ok t
  | size :: rest =>
    match readSize size with
    | .error e => .error e
    | .ok s => withSuffixes (t.suffixed s) rest

/-- The type that is no tuple and no struct with a name. -/
def elementary (base : List Char) : Except Fault AbiType :=
  match AbiType.parse base with
  | .error cause => .error (.unknownType base (some cause))
  | .ok (.tuple _) => .error (.unknownType base none)
  | .ok t => .ok t

/-- Find a struct and take it out of the list. -/
def takeStruct? (name : List Char) : List StructDef → Option (StructDef × List StructDef)
  | [] => none
  | d :: rest =>
    if d.name == name then some (d, rest)
    else (takeStruct? name rest).map fun p => (p.1, d :: p.2)

/-- The bound that a list of texts puts on the steps of reading them. -/
def weight : List (List Char) → Nat
  | [] => 0
  | cs :: rest => (3 * cs.length + 3) + weight rest

/-- The bound that a list of structs puts on the steps of reading their fields. -/
def structWeight : List StructDef → Nat
  | [] => 0
  | d :: rest => weight d.fields + structWeight rest

theorem weight_onFirst (c : Char) {parts : List (List Char)} (h : parts ≠ []) :
    weight (onFirst c parts) = weight parts + 3 := by
  cases parts with
  | nil => exact absurd rfl h
  | cons part rest => simp [onFirst, weight]; omega

theorem cutFrom_ne_nil (separator : Char) (depth : Int) (cs : List Char) :
    cutFrom separator depth cs ≠ [] := by
  have first (c : Char) (parts : List (List Char)) : onFirst c parts ≠ [] := by
    cases parts <;> simp [onFirst]
  cases cs with
  | nil => simp [cutFrom]
  | cons c cs =>
    simp only [cutFrom]
    split
    · exact first _ _
    · split
      · exact first _ _
      · split
        · simp
        · exact first _ _

theorem weight_cutFrom (separator : Char) (depth : Int) (cs : List Char) :
    weight (cutFrom separator depth cs) = 3 * cs.length + 3 := by
  induction cs generalizing depth with
  | nil => simp [cutFrom, weight]
  | cons c cs ih =>
    simp only [cutFrom, List.length_cons]
    split
    · rw [weight_onFirst c (cutFrom_ne_nil _ _ _), ih]; omega
    · split
      · rw [weight_onFirst c (cutFrom_ne_nil _ _ _), ih]; omega
      · split
        · simp only [weight, List.length_nil, ih]; omega
        · rw [weight_onFirst c (cutFrom_ne_nil _ _ _), ih]; omega

theorem weight_cutAtSeparators (separator : Char) (cs : List Char) :
    weight (cutAtSeparators separator cs) = 3 * cs.length + 3 :=
  weight_cutFrom separator 0 cs

theorem structWeight_takeStruct {name : List Char} {defs others : List StructDef} {d : StructDef}
    (h : takeStruct? name defs = some (d, others)) :
    structWeight others + weight d.fields = structWeight defs := by
  induction defs generalizing others with
  | nil => simp [takeStruct?] at h
  | cons e defs ih =>
    simp only [takeStruct?] at h
    split at h
    · obtain ⟨rfl, rfl⟩ := by simpa using h
      simp [structWeight]
      omega
    · obtain ⟨p, hp, hq⟩ := Option.map_eq_some_iff.1 h
      obtain ⟨rfl, rfl⟩ := by simpa using hq
      have := ih hp
      simp [structWeight]
      omega

theorem length_trim_le (cs : List Char) : (Text.trim cs).length ≤ cs.length := by
  have h₁ := length_dropWhile_le Text.isBlank cs
  have h₂ := length_dropWhile_le Text.isBlank (cs.dropWhile Text.isBlank).reverse
  simp [Text.trim, Text.trimEnd, Text.trimStart] at h₁ h₂ ⊢
  omega

theorem length_cutTypeFrom_le {depth : Nat} {cs : List Char} {p : List Char × List Char}
    (h : cutTypeFrom depth cs = some p) : p.1.length ≤ cs.length := by
  induction cs generalizing depth p with
  | nil =>
    simp only [cutTypeFrom] at h
    split at h
    · obtain rfl := by simpa using h
      simp
    · simp at h
  | cons c cs ih =>
    have step {d : Nat} (h : (cutTypeFrom d cs).map (fun p => (c :: p.1, p.2)) = some p) :
        p.1.length ≤ (c :: cs).length := by
      obtain ⟨q, hq, rfl⟩ := Option.map_eq_some_iff.1 h
      simpa using ih hq
    simp only [cutTypeFrom] at h
    split at h
    · exact step h
    · split at h
      · split at h
        · simp at h
        · exact step h
      · split at h
        · obtain rfl := by simpa using h
          simp
        · exact step h

theorem length_suffixesBackward_le {found : List (List Char)} {cs : List Char}
    {p : List Char × List (List Char)} (h : suffixesBackward found cs = some p) :
    p.1.length ≤ cs.length := by
  fun_induction suffixesBackward found cs with
  | case1 => simp at h
  | case2 found rest size x base hbase hsize =>
    obtain rfl := by simpa using h
    simp
  | case3 found rest size x base hbase hsize ih =>
    have h₁ := length_dropWhile_le (· != '[') rest
    have h₂ := ih h
    rw [hbase] at h₁
    simp at h₁ ⊢
    omega
  | case4 =>
    obtain rfl := by simpa using h
    simp

theorem length_cutSuffixes_le {cs : List Char} {p : List Char × List (List Char)}
    (h : cutSuffixes? cs = some p) : p.1.length ≤ cs.length := by
  obtain ⟨q, hq, rfl⟩ := Option.map_eq_some_iff.1 h
  have h₁ := length_suffixesBackward_le hq
  have h₂ := length_trim_le q.1.reverse
  simp at h₁ h₂ ⊢
  omega

theorem length_after_le {pre cs rest : List Char} (h : Text.after? pre cs = some rest) :
    rest.length + pre.length ≤ cs.length := by
  simp only [Text.after?] at h
  split at h
  · next hp =>
    have := (List.isPrefixOf_iff_prefix.1 hp).length_le
    obtain rfl := by simpa using h
    simp
    omega
  · simp at h

theorem length_before_le {post cs rest : List Char} (h : Text.before? post cs = some rest) :
    rest.length + post.length ≤ cs.length := by
  simp only [Text.before?] at h
  split at h
  · next hp =>
    have := (List.isSuffixOf_iff_suffix.1 hp).length_le
    obtain rfl := by simpa using h
    simp
    omega
  · simp at h

theorem length_tupleInner_le {cs inner : List Char} (h : tupleInner? cs = some inner) :
    inner.length + 2 ≤ cs.length := by
  obtain ⟨list, h₁, h₂⟩ := Option.bind_eq_some_iff.1 h
  have h₁ := length_after_le h₁
  have h₂ := length_before_le h₂
  have h₃ := length_trim_le ((Text.after? ['t', 'u', 'p', 'l', 'e'] cs).getD cs)
  have h₄ : ((Text.after? ['t', 'u', 'p', 'l', 'e'] cs).getD cs).length ≤ cs.length := by
    cases h : Text.after? ['t', 'u', 'p', 'l', 'e'] cs with
    | none => simp
    | some rest =>
      have := length_after_le h
      simp at this ⊢
      omega
  simp at h₁ h₂
  omega

/-- The tuple of some fields, with the fields as its components. -/
def fieldsAsTuple (components : List Param) : AbiType × List Param :=
  (.tuple (components.map Param.type), components)

mutual

/-- Read one parameter. The structs that may be used in it are `available`; the ones among whose
fields it stands are `opened`. -/
def readParam (opened : List (List Char)) (available : List StructDef) (written : List Char) :
    Except Fault Param :=
  let text := Text.trim written
  if text.isEmpty then .error .emptyParameter
  else
    match _ht : cutType? text with
    | none => .error (.unbalanced text)
    | some (typeText, rest) =>
      match readName text rest with
      | .error e => .error e
      | .ok name =>
        match _hs : cutSuffixes? typeText with
        | none => .error (.unbalanced typeText)
        | some (base, suffixes) =>
          let resolved : Except Fault (AbiType × List Param) :=
            match _hi : tupleInner? base with
            | some inner =>
              if (Text.trim inner).isEmpty then .ok (fieldsAsTuple [])
              else (readParams opened available (cutAtSeparators ',' inner)).map fieldsAsTuple
            | none =>
              match _hd : takeStruct? base available with
              | some (d, others) => (readParams (base :: opened) others d.fields).map fieldsAsTuple
              | none =>
                if opened.contains base then .error (.structCycle base)
                else (elementary base).map fun t => (t, [])
          match resolved with
          | .error e => .error e
          | .ok (t, components) =>
            (withSuffixes t suffixes).map fun t =>
              { name := name.map String.ofList, kind := t.text, type := t,
                components := components }
termination_by structWeight available + (3 * written.length + 2)
decreasing_by
  all_goals
    have h₀ : text.length ≤ written.length := length_trim_le written
    have h₁ := length_cutTypeFrom_le _ht
    have h₂ := length_cutSuffixes_le _hs
  · have h₃ := length_tupleInner_le _hi
    rw [weight_cutAtSeparators]
    simp at h₁ h₂ h₃
    omega
  · have h₃ := structWeight_takeStruct _hd
    omega

/-- Read parameters in order. -/
def readParams (opened : List (List Char)) (available : List StructDef) :
    List (List Char) → Except Fault (List Param)
  | [] => .ok []
  | text :: rest =>
    match readParam opened available text with
    | .error e => .error e
    | .ok p => (readParams opened available rest).map (p :: ·)
termination_by texts => structWeight available + weight texts
decreasing_by
  · simp [weight]
    omega
  · simp [weight]

end

/-- Take the struct definitions out of all declarations: the definitions, and each declaration
with what is left of it. -/
def takeAllStructs (known : List StructDef) :
    List String → Except DecodeFault (List StructDef × List (String × List Char))
  | [] => .ok (known, [])
  | declaration :: rest =>
    match takeStructs known declaration.toList with
    | .error e => .error (.malformedDeclaration declaration e.message)
    | .ok (known, left) =>
      (takeAllStructs known rest).map fun p => (p.1, (declaration, left) :: p.2)

/-- Read the parameters of declarations out of which the definitions are taken. A declaration of
nothing but blanks has none. -/
def readDeclarations (structs : List StructDef) :
    List (String × List Char) → Except DecodeFault (List Param)
  | [] => .ok []
  | (declaration, left) :: rest =>
    let own : Except Fault (List Param) :=
      if (Text.trim left).isEmpty then .ok []
      else readParams [] structs (cutAtSeparators ',' left)
    match own with
    | .error e => .error (.malformedDeclaration declaration e.message)
    | .ok params => (readDeclarations structs rest).map (params ++ ·)

/-- Read every declaration into one list of parameters. -/
def parse (declarations : List String) : Except DecodeFault (List Param) :=
  match takeAllStructs [] declarations with
  | .error e => .error e
  | .ok (structs, left) => readDeclarations structs left

end RollupInput.Declaration
