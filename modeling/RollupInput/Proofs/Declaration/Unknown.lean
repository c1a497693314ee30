import RollupInput.Proofs.Declaration.Specifiers

/-!
# The first unknown type

A declaration whose types have names without the keyword is refused only because of these names: its
fault is that of the first name that is the name of no type. The induction is on what is written.
-/

namespace RollupInput.Declaration

open Abi

/-- The fault of the first name that is the name of no elementary type. -/
def firstUnknown? (names : List (List Char)) : Option Fault :=
  names.findSome? fun n => fault? (elementary n)

mutual

/-- The fault of reading a written parameter is that of the first unknown name in it. -/
theorem Written.fault?_outcome (w : Written) : fault? w.outcome = firstUnknown? w.typeNames := by
  cases w with
  | elementary type around =>
    rw [Written.outcome, fault?_map, Written.typeNames, firstUnknown?, List.findSome?_singleton]
  | emptyTuple marked gap around =>
    rw [Written.outcome]
    rfl
  | tuple marked fields around =>
    rw [Written.outcome, fault?_map, fault?_outcomes fields, Written.typeNames]

/-- The fault of reading written parameters is that of the first unknown name in them. -/
theorem fault?_outcomes (ws : List Written) :
    fault? (outcomes ws) = firstUnknown? (typeNamesOf ws) := by
  cases ws with
  | nil =>
    rw [outcomes]
    rfl
  | cons w rest =>
    rw [firstUnknown?, typeNamesOf, List.findSome?_append, ← firstUnknown?, ← firstUnknown?,
      ← Written.fault?_outcome w, ← fault?_outcomes rest, outcomes]
    cases w.outcome with
    | error e => rfl
    | ok p =>
      dsimp only
      rw [fault?_map]
      rfl

end

/-- A declaration of written parameters without the keyword is refused because of the first unknown
name in it. -/
theorem exists_firstUnknown_of_parse {ws : List Written} (hne : ws ≠ []) (hlaid : AreLaidOut ws)
    (hnames : ∀ n ∈ typeNamesOf ws, IsTypeName n ∧ KeywordFree n) {e : DecodeFault}
    (h : parse [declaration ws] = .error e) :
    ∃ fault, firstUnknown? (typeNamesOf ws) = some fault ∧
      e = .malformedDeclaration (declaration ws) fault.message := by
  have htypes : ∀ n ∈ typeNamesOf ws, IsTypeName n := fun n hn => (hnames n hn).1
  have hfree := keywordFree_join_texts ws hlaid fun n hn => (hnames n hn).2
  have htext : (declaration ws).toList = Text.join [','] (texts ws) := String.toList_ofList
  have hempty : ¬(Text.trim (Text.join [','] (texts ws))).isEmpty = true := by
    rw [List.isEmpty_iff]
    exact trim_texts_ne_nil hne hlaid htypes
  rw [parse, takeAllStructs, htext, takeStructs_of_keywordFree hfree] at h
  have h : readDeclarations [] [(declaration ws, Text.join [','] (texts ws))] = .error e := h
  rw [readDeclarations, if_neg hempty, cutAtSeparators_texts hne hlaid htypes] at h
  have hread := fault?_outcomes ws
  rw [← readParams_texts ws hlaid htypes] at hread
  cases hown : readParams [] [] (texts ws) with
  | ok params =>
    rw [hown] at h
    cases h
  | error fault =>
    rw [hown] at h hread
    cases h
    exact ⟨fault, hread.symm, rfl⟩

/-- The cause for which the first name that is no type is none. -/
def firstCause? (names : List (List Char)) : Option TypeFault :=
  names.findSome? fun n => fault? (AbiType.parse n)

/-- A specifier name is unknown for the cause for which it is no type. -/
theorem fault?_elementary {name identifier : List Char}
    (h : TypeText.parse? name = some (.named identifier [])) :
    fault? (elementary name) =
      (fault? (AbiType.parse name)).map fun cause => .unknownType name (some cause) := by
  rw [elementary_of_parse? h]
  cases AbiType.parse name with
  | error e => rfl
  | ok t => rfl

/-- The first unknown name of some specifier names is the first that is no type, and unknown for
that cause. -/
theorem exists_of_firstUnknown? {names : List (List Char)}
    (h : ∀ n ∈ names, ∃ identifier, TypeText.parse? n = some (.named identifier []))
    {fault : Fault} (hfault : firstUnknown? names = some fault) :
    ∃ n ∈ names, ∃ cause, firstCause? names = some cause ∧
      fault = .unknownType n (some cause) := by
  induction names with
  | nil => cases hfault
  | cons n rest ih =>
    obtain ⟨identifier, hparse⟩ := h n List.mem_cons_self
    have hfirst := fault?_elementary hparse
    rw [firstUnknown?, List.findSome?_cons, hfirst] at hfault
    rw [firstCause?, List.findSome?_cons]
    cases hcause : fault? (AbiType.parse n) with
    | some cause =>
      rw [hcause] at hfault
      exact ⟨n, List.mem_cons_self, cause, rfl, (Option.some.inj hfault).symm⟩
    | none =>
      rw [hcause] at hfault
      obtain ⟨m, hm, cause, hsome, heq⟩ := ih (fun x hx => h x (List.mem_cons_of_mem n hx)) hfault
      exact ⟨m, List.mem_cons_of_mem n hm, cause, hsome, heq⟩

end RollupInput.Declaration
