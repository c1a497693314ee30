import RollupInput.Proofs.Declaration.Termination

/-!
# Structs that refer to themselves

A struct refers to itself if its name is reached from one of its own fields, through types of fields,
tuples, array suffixes and other structs. Where parameters are read, no struct that they reach refers
to itself. A struct that is refused as referring to itself does so. Both follow the stack: no struct
that is open is reached again, and what is reached again below a struct is reached from its fields.
-/

namespace RollupInput.Declaration

open Abi

/-- Whether a name is reached from the text of a parameter as the base of a type. Array suffixes make
no difference. -/
inductive Reaches (table : FieldTable) : List Char → List Char → Prop where
  /-- The name is the base of the type itself. -/
  | base {written name : List Char} (hbase : baseOf? written = some name)
      (htuple : tupleFields? name = none) : Reaches table written name
  /-- It is reached from a field of the tuple that the type is. -/
  | tuple {written base text name : List Char} {fields : List (List Char)}
      (hbase : baseOf? written = some base) (hfields : tupleFields? base = some fields)
      (hmem : text ∈ fields) (h : Reaches table text name) : Reaches table written name
  /-- It is reached from a field of the struct that the type is. -/
  | struct {written base text name : List Char} {fields : List (List Char)}
      (hbase : baseOf? written = some base) (htuple : tupleFields? base = none)
      (hfields : table base = some fields) (hmem : text ∈ fields) (h : Reaches table text name) :
      Reaches table written name

/-- Whether a struct is reached from one of its own fields. -/
def RefersToItself (table : FieldTable) (name : List Char) : Prop :=
  ∃ fields, table name = some fields ∧ ∃ text ∈ fields, Reaches table text name

variable {table : FieldTable} {steps : Nat} {stack : Stack} {written name : List Char}

/-- What is reached from a parameter is its base, or it is reached from a field that stands in the
place of the base. -/
theorem reaches_iff {base : List Char} (hbase : baseOf? written = some base) :
    Reaches table written name ↔
      (name = base ∧ tupleFields? base = none) ∨
        ∃ pushed fields, inside? table base = some (pushed, fields) ∧
          ∃ text ∈ fields, Reaches table text name := by
  constructor
  · intro h
    cases h with
    | base hbase' htuple =>
      cases hbase.symm.trans hbase'
      exact .inl ⟨rfl, htuple⟩
    | tuple hbase' hfields hmem htext =>
      cases hbase.symm.trans hbase'
      refine .inr ⟨[], _, ?_, _, hmem, htext⟩
      unfold inside?
      rw [hfields]
    | struct hbase' htuple hfields hmem htext =>
      cases hbase.symm.trans hbase'
      exact .inr ⟨_, _, inside?_of_struct htuple hfields, _, hmem, htext⟩
  · rintro (⟨rfl, htuple⟩ | ⟨pushed, fields, hinside, text, hmem, htext⟩)
    · exact .base hbase htuple
    · unfold inside? at hinside
      split at hinside
      · rename_i hfields
        cases hinside
        exact .tuple hbase hfields hmem htext
      · rename_i htuple
        obtain ⟨found, hfound, hpair⟩ := Option.map_eq_some_iff.mp hinside
        cases hpair
        exact .struct hbase htuple hfound hmem htext

/-- No struct that is reached from a parameter that is read is open already, and none refers to
itself. The induction is on the steps: below a struct that is opened, the struct is not reached
again, because it is open there. -/
theorem not_refersToItself_of_resolve {p : Param}
    (h : resolve table steps stack written = some (.ok p)) (hname : Reaches table written name)
    (hdeclared : (table name).isSome = true) : name ∉ stack ∧ ¬RefersToItself table name := by
  induction steps generalizing stack written p with
  | zero => cases h
  | succ steps ih =>
    obtain ⟨c, resolved, hcut, hopen, -⟩ := ok_of_resolve h
    rcases (reaches_iff (baseOf?_of_cutParam hcut)).mp hname with
      ⟨rfl, htuple⟩ | ⟨pushed, fields, hinside, text, hmem, htext⟩
    · obtain ⟨fields, hfields⟩ := Option.isSome_iff_exists.mp hdeclared
      obtain ⟨hnew, hread⟩ := ok_of_openBase hopen (inside?_of_struct htuple hfields)
      refine ⟨hnew c.base List.mem_cons_self, ?_⟩
      rintro ⟨fields', hfields', text, hmem, htext⟩
      cases hfields.symm.trans hfields'
      obtain ⟨q, hq⟩ := hread text hmem
      exact (ih hq htext).1 List.mem_cons_self
    · obtain ⟨-, hread⟩ := ok_of_openBase hopen hinside
      obtain ⟨q, hq⟩ := hread text hmem
      obtain ⟨hnew, hacyclic⟩ := ih hq htext
      exact ⟨fun hstack => hnew (List.mem_append_right pushed hstack), hacyclic⟩

/-- A struct for which a parameter is refused as a cycle is declared and reached from the parameter,
and it is open already or refers to itself. -/
theorem refersToItself_of_cycle
    (h : resolve table steps stack written = some (.error (.structCycle name))) :
    Reaches table written name ∧ (table name).isSome = true ∧
      (name ∈ stack ∨ RefersToItself table name) := by
  induction steps generalizing stack written with
  | zero => cases h
  | succ steps ih =>
    obtain ⟨c, hcut, hopen⟩ := cycle_of_resolve h
    have hreaches := @reaches_iff table written name c.base (baseOf?_of_cutParam hcut)
    obtain ⟨pushed, fields, hinside, hcycle⟩ := cycle_of_openBase hopen
    rcases hcycle with ⟨rfl, hpushed, hstack⟩ | ⟨text, hmem, htext⟩
    · obtain ⟨-, htuple, hfields⟩ := struct_of_mem_pushed hinside hpushed
      exact ⟨hreaches.mpr (.inl ⟨rfl, htuple⟩), Option.isSome_of_eq_some hfields, .inl hstack⟩
    · obtain ⟨hreached, hdeclared, hagain⟩ := ih htext
      refine ⟨hreaches.mpr (.inr ⟨pushed, fields, hinside, text, hmem, hreached⟩), hdeclared, ?_⟩
      rcases hagain with hagain | hagain
      · rcases List.mem_append.mp hagain with hpushed | hstack
        · obtain ⟨-, -, hfields⟩ := struct_of_mem_pushed hinside hpushed
          exact .inr ⟨fields, hfields, text, hmem, hreached⟩
        · exact .inl hstack
      · exact .inr hagain

/-! ## The wording of a cycle -/

/-- A text that is put behind another ends as it does. -/
theorem getLast?_of_append {front back : List Char} {c : Char} (h : back.getLast? = some c) :
    (front ++ back).getLast? = some c := by
  rw [List.getLast?_append, h]
  rfl

/-- The wording of a cycle is the wording of no other fault. No other fault has its first and its
last character. -/
theorem eq_structCycle_of_message {e : Fault}
    (h : e.message = (Fault.structCycle name).message) : e = .structCycle name := by
  have htext : e.text = (Fault.structCycle name).text := String.ofList_injective h
  have hfirst : e.text.head? = some 's' := by
    rw [htext]
    rfl
  have hlast : e.text.getLast? = some 'f' := by
    rw [htext]
    exact getLast?_of_append rfl
  have hno {c : Char} (hc : e.text.getLast? = some c) (hne : c ≠ 'f') : False :=
    hne (Option.some.inj (hc.symm.trans hlast))
  cases e with
  | structCycle other =>
    have hname : "struct ".toList ++ (other ++ " refers to itself".toList) =
        "struct ".toList ++ (name ++ " refers to itself".toList) := by
      rw [← List.append_assoc, ← List.append_assoc]
      exact htext
    rw [List.append_cancel_right (List.append_cancel_left hname)]
  | structWithoutBody => exact (hno (c := '\'') rfl (by decide)).elim
  | structUnclosed other => exact (hno (getLast?_of_append (c := '\'') rfl) (by decide)).elim
  | structEmpty other => exact (hno (getLast?_of_append (c := 's') rfl) (by decide)).elim
  | structRepeated other => exact (hno (getLast?_of_append (c := 'e') rfl) (by decide)).elim
  | structName other => cases hfirst
  | emptyParameter => cases hfirst
  | unbalanced text => cases hfirst
  | unexpectedWord word text => cases hfirst
  | parameterName other => cases hfirst
  | arraySize size => cases hfirst
  | unknownType text cause => cases cause <;> cases hfirst

/-- Taking definitions out of a declaration finds no cycle. -/
theorem takeStructs_ne_structCycle {known : List StructDef} {cs : List Char} :
    takeStructs known cs ≠ .error (.structCycle name) := by
  intro h
  fun_induction takeStructs known cs with
  | case1 => cases h
  | case2 known cs before after hcut e hread =>
    cases h
    unfold readStruct at hread
    dsimp only at hread
    split at hread
    · cases hread
    · split at hread
      · cases hread
      · split at hread
        · cases hread
        · split at hread <;> cases hread
  | case3 => cases h
  | case4 known cs before after hcut d rest hread hnew ih => exact ih (error_of_map h)

/-! ## Cycles of declarations -/

/-- No struct that a parameter of declarations reaches refers to itself if they are read. -/
theorem not_refersToItself_of_parse {declarations : List String} {params : List Param}
    (h : parse declarations = .ok params) :
    ∃ structs lefts, takeAllStructs [] declarations = .ok (structs, lefts) ∧
      ∀ group ∈ lefts, ∀ text ∈ ownTexts group.2, ∀ name,
        Reaches (fieldsOf? structs) text name → ¬RefersToItself (fieldsOf? structs) name := by
  obtain ⟨structs, lefts, htake, hread⟩ := takeAllStructs_of_parse h
  refine ⟨structs, lefts, htake, ?_⟩
  intro group hgroup text htext name hreached hself
  obtain ⟨p, hp⟩ := readDeclarations_ok_iff.mp ⟨params, hread⟩ group hgroup text htext
  have hsteps := resolve_eventually (nodup_of_takeAllStructs htake .nil) text (Nat.le_refl _)
  rw [hp] at hsteps
  obtain ⟨fields, hfields, hown⟩ := hself
  exact (not_refersToItself_of_resolve hsteps hreached (Option.isSome_of_eq_some hfields)).2
    ⟨fields, hfields, hown⟩

/-- A struct for which declarations are refused because it refers to itself is declared, reached from
a parameter of the declaration that is blamed, and refers to itself. -/
theorem refersToItself_of_parse {declarations : List String} {declaration : String}
    (h : parse declarations =
      .error (.malformedDeclaration declaration (Fault.structCycle name).message)) :
    ∃ structs lefts, takeAllStructs [] declarations = .ok (structs, lefts) ∧
      name ∈ structs.map StructDef.name ∧ RefersToItself (fieldsOf? structs) name ∧
      ∃ left, (declaration, left) ∈ lefts ∧
        ∃ text ∈ ownTexts left, Reaches (fieldsOf? structs) text name := by
  cases htake : takeAllStructs [] declarations with
  | error e =>
    unfold parse at h
    rw [htake] at h
    cases h
    obtain ⟨blamed, -, known, fault, hfault, hmessage⟩ := takeAllStructs_error htake
    injection hmessage with _ hmessage
    rw [eq_structCycle_of_message hmessage.symm] at hfault
    exact absurd hfault takeStructs_ne_structCycle
  | ok taken =>
    rw [parse_of_takeAllStructs htake] at h
    obtain ⟨group, hgroup, text, htext, fault, hfault, hmessage⟩ := readDeclarations_error h
    injection hmessage with hdeclaration hmessage
    rw [eq_structCycle_of_message hmessage.symm] at hfault
    have hsteps := resolve_eventually (nodup_of_takeAllStructs htake .nil) text (Nat.le_refl _)
    rw [hfault] at hsteps
    obtain ⟨hreached, hdeclared, hself⟩ := refersToItself_of_cycle hsteps
    rcases hself with hself | hself
    · cases hself
    · refine ⟨taken.1, taken.2, rfl, isSome_fieldsOf?_iff.mp hdeclared, hself, group.2, ?_, text,
        htext, hreached⟩
      rw [hdeclaration]
      exact hgroup

/-- Reading declarations detects cycles exactly. The procedure with the stack ends on them. If they
are read, then no struct that is reached from a parameter refers to itself. If one is refused because
a struct refers to itself, then the struct is declared, reached from a parameter of the declaration,
and refers to itself. -/
theorem parse_detects_cycles (declarations : List String) :
    (∃ enough, ∀ steps, enough ≤ steps →
      parseWithin steps declarations = some (parse declarations)) ∧
    (∀ params, parse declarations = .ok params →
      ∃ structs lefts, takeAllStructs [] declarations = .ok (structs, lefts) ∧
        ∀ group ∈ lefts, ∀ text ∈ ownTexts group.2, ∀ name,
          Reaches (fieldsOf? structs) text name → ¬RefersToItself (fieldsOf? structs) name) ∧
    (∀ declaration name,
      parse declarations =
        .error (.malformedDeclaration declaration (Fault.structCycle name).message) →
      ∃ structs lefts, takeAllStructs [] declarations = .ok (structs, lefts) ∧
        name ∈ structs.map StructDef.name ∧ RefersToItself (fieldsOf? structs) name ∧
        ∃ left, (declaration, left) ∈ lefts ∧
          ∃ text ∈ ownTexts left, Reaches (fieldsOf? structs) text name) := by
  exact ⟨exists_steps_of_parse declarations, fun _ => not_refersToItself_of_parse,
    fun _ _ => refersToItself_of_parse⟩

/-- Two structs that stand among each other's fields, and a parameter of one of them. -/
def mutualStructs : List String :=
  ["struct A { B[] b; } struct B { (A a, uint x) pair; }", "A x"]

/-- A struct that is used along several paths. -/
def sharedStruct : List String :=
  ["Two both, One[] more", "struct Two { One first; (One second) rest; } struct One { () x; }"]

/-- The cycle of the mutual structs is detected, and none is in the shared struct. -/
theorem mutualStructs_refer_to_themselves :
    (∃ structs lefts, takeAllStructs [] mutualStructs = .ok (structs, lefts) ∧
      RefersToItself (fieldsOf? structs) ['A']) ∧
    ∃ structs lefts, takeAllStructs [] sharedStruct = .ok (structs, lefts) ∧
      ∀ group ∈ lefts, ∀ text ∈ ownTexts group.2, ∀ name,
        Reaches (fieldsOf? structs) text name → ¬RefersToItself (fieldsOf? structs) name := by
  constructor
  · let structs : List StructDef :=
      [⟨['B'], ["(A a, uint x) pair".toList]⟩, ⟨['A'], ["B[] b".toList]⟩]
    have htake : takeAllStructs [] mutualStructs = .ok (structs,
        [("struct A { B[] b; } struct B { (A a, uint x) pair; }", [' ']),
          ("A x", "A x".toList)]) := by
      with_unfolding_all rfl
    have hresolve : resolve (fieldsOf? structs) 8 [] "A x".toList =
        some (.error (.structCycle ['A'])) := by with_unfolding_all rfl
    have hread := readParam_of_resolve (by decide) hresolve
    have hparse : parse mutualStructs =
        .error (.malformedDeclaration "A x" (Fault.structCycle ['A']).message) := by
      have hblank : ownTexts [' '] = [] := rfl
      have hown : ownTexts "A x".toList = ["A x".toList] := rfl
      rw [parse_of_takeAllStructs htake, readDeclarations_cons, readDeclarations_cons, hblank, hown,
        readParams, readParams, hread]
      rfl
    obtain ⟨taken, lefts, htaken, -, hself, -⟩ := (parse_detects_cycles mutualStructs).2.2 _ _ hparse
    exact ⟨taken, lefts, htaken, hself⟩
  · let structs : List StructDef :=
      [⟨['O', 'n', 'e'], ["() x".toList]⟩,
        ⟨['T', 'w', 'o'], ["One first".toList, "(One second) rest".toList]⟩]
    let lefts : List (String × List Char) :=
      [("Two both, One[] more", "Two both, One[] more".toList),
        ("struct Two { One first; (One second) rest; } struct One { () x; }", [' '])]
    have htake : takeAllStructs [] sharedStruct = .ok (structs, lefts) := by with_unfolding_all rfl
    have hdistinct : (structs.map StructDef.name).Nodup := by decide
    have hall : ∀ group ∈ lefts, ∀ text ∈ ownTexts group.2,
        (resolve (fieldsOf? structs) 8 [] text).map Except.isOk = some true := by
      have hblank : ownTexts [' '] = [] := rfl
      have hown : ownTexts "Two both, One[] more".toList =
          ["Two both".toList, " One[] more".toList] := rfl
      rw [List.forall_mem_cons, List.forall_mem_singleton, hblank, hown, List.forall_mem_cons,
        List.forall_mem_singleton]
      exact ⟨⟨by with_unfolding_all rfl, by with_unfolding_all rfl⟩, fun text hmem => by cases hmem⟩
    obtain ⟨params, hparams⟩ := readDeclarations_ok_iff.mpr fun group hgroup text htext =>
      exists_of_resolve hdistinct (hall group hgroup text htext)
    have hparse := (parse_of_takeAllStructs htake).trans hparams
    exact (parse_detects_cycles sharedStruct).2.1 params hparse

end RollupInput.Declaration
