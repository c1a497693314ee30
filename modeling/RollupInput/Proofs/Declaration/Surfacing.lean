import RollupInput.Proofs.Declaration.Cycles

/-!
# Where a malformed struct is surfaced

The fields of a struct are read where the struct is used, and nowhere else. So a field that cannot
be read among all structs makes declarations fail exactly if a parameter reaches the struct, and
the declaration that is blamed is the first with such a parameter. This rests on two facts of the
procedure with the stack: what is read under some open structs is read under any others that it does
not reach, and two tables that agree on what a parameter reaches give the same outcome for it.
-/

namespace RollupInput.Declaration

open Abi

section

variable {table other : FieldTable} {steps : Nat} {stack : Stack} {written name : List Char}

/-- The open structs do not matter for a parameter that is read, as long as it reaches none of
them. -/
theorem resolve_of_unreached {p : Param} {otherStack : Stack}
    (h : resolve table steps stack written = some (.ok p))
    (hunreached : ∀ name, Reaches table written name → (table name).isSome = true →
      name ∉ otherStack) :
    resolve table steps otherStack written = some (.ok p) := by
  induction steps generalizing stack otherStack written p with
  | zero => cases h
  | succ steps ih =>
    obtain ⟨c, resolved, hcut, hopen, -⟩ := ok_of_resolve h
    have hreaches := @reaches_iff table written
    rw [resolve_of_cut hcut] at h ⊢
    rw [openBase_congr rfl ?_, h]
    intro pushed fields hinside
    obtain ⟨hnew, hread⟩ := ok_of_openBase hopen hinside
    constructor
    · have hclosed (closedStack : Stack) (hnot : ∀ name ∈ pushed, name ∉ closedStack) :
          pushed.any closedStack.contains = false := by
        refine List.any_eq_false.mpr fun name hname hmem => ?_
        exact hnot name hname (List.contains_iff_mem.mp hmem)
      rw [hclosed stack hnew, hclosed otherStack ?_]
      intro name hname
      obtain ⟨rfl, htuple, hfields⟩ := struct_of_mem_pushed hinside hname
      exact hunreached _ ((hreaches (baseOf?_of_cutParam hcut)).mpr (.inl ⟨rfl, htuple⟩))
        (Option.isSome_of_eq_some hfields)
    · intro text hmem
      obtain ⟨q, hq⟩ := hread text hmem
      rw [hq]
      refine ih hq fun name hname hdeclared hopened => ?_
      rcases List.mem_append.mp hopened with hpushed | hother
      · exact (not_refersToItself_of_resolve hq hname hdeclared).1
          (List.mem_append_left stack hpushed)
      · exact hunreached name ((hreaches (baseOf?_of_cutParam hcut)).mpr
          (.inr ⟨pushed, fields, hinside, text, hmem, hname⟩)) hdeclared hother

/-- Where a parameter is read, each field of a struct that it reaches is read on its own. -/
theorem resolve_field_of_reaches {p : Param} {fields : List (List Char)}
    (h : resolve table steps stack written = some (.ok p)) (hname : Reaches table written name)
    (hfields : table name = some fields) :
    ∀ text ∈ fields, ∃ q, resolve table steps [] text = some (.ok q) := by
  induction steps generalizing stack written p with
  | zero => cases h
  | succ steps ih =>
    obtain ⟨c, resolved, hcut, hopen, -⟩ := ok_of_resolve h
    intro text hmem
    rcases (reaches_iff (baseOf?_of_cutParam hcut)).mp hname with
      ⟨rfl, htuple⟩ | ⟨pushed, others, hinside, inner, hinner, hreached⟩
    · obtain ⟨-, hread⟩ := ok_of_openBase hopen (inside?_of_struct htuple hfields)
      obtain ⟨q, hq⟩ := hread text hmem
      refine ⟨q, resolve_mono (Nat.le_succ steps) (resolve_of_unreached hq ?_)⟩
      intro _ _ _ hopened
      cases hopened
    · obtain ⟨-, hread⟩ := ok_of_openBase hopen hinside
      obtain ⟨q, hq⟩ := hread inner hinner
      obtain ⟨found, hfound⟩ := ih hq hreached text hmem
      exact ⟨found, resolve_mono (Nat.le_succ steps) hfound⟩

/-- Two tables that agree on all that a parameter reaches give the same outcome for it. -/
theorem resolve_congr (h : ∀ name, Reaches table written name → other name = table name) :
    resolve other steps stack written = resolve table steps stack written := by
  induction steps generalizing stack written with
  | zero => rfl
  | succ steps ih =>
    cases hcut : cutParam written with
    | error e => rw [resolve, resolve, hcut]
    | ok c =>
      have hreaches := @reaches_iff table written
      have hbase := baseOf?_of_cutParam hcut
      rw [resolve_of_cut hcut, resolve_of_cut hcut, openBase_congr ?_ ?_]
      · unfold inside?
        cases htuple : tupleFields? c.base with
        | some fields => rfl
        | none =>
          dsimp only
          rw [h c.base ((hreaches hbase).mpr (.inl ⟨rfl, htuple⟩))]
      · intro pushed fields hinside
        refine ⟨rfl, fun text hmem => ih fun name hname => ?_⟩
        exact h name ((hreaches hbase).mpr (.inr ⟨pushed, fields, hinside, text, hmem, hname⟩))

end

variable {structs others : List StructDef} {written name : List Char}

/-- A parameter is read alike among two lists of structs that agree on all that it reaches. -/
theorem readParam_congr (hdistinct : (structs.map StructDef.name).Nodup)
    (hothers : (others.map StructDef.name).Nodup)
    (h : ∀ name, Reaches (fieldsOf? structs) written name →
      fieldsOf? others name = fieldsOf? structs name) :
    readParam [] others written = readParam [] structs written := by
  have hresolve := resolve_eventually hdistinct written
    (Nat.le_max_left _ (structWeight others + (3 * written.length + 2)))
  rw [← resolve_congr h] at hresolve
  exact readParam_of_resolve hothers hresolve

/-- Where a parameter is read, each field of a struct that it reaches is read on its own. -/
theorem readParam_field_of_reaches (hdistinct : (structs.map StructDef.name).Nodup)
    {p : Param} (h : readParam [] structs written = .ok p)
    (hname : Reaches (fieldsOf? structs) written name) {fields : List (List Char)}
    (hfields : fieldsOf? structs name = some fields) :
    ∀ text ∈ fields, ∃ q, readParam [] structs text = .ok q := by
  intro text hmem
  have hresolve := resolve_eventually hdistinct written (Nat.le_refl _)
  rw [h] at hresolve
  obtain ⟨q, hq⟩ := resolve_field_of_reaches hresolve hname hfields text hmem
  exact ⟨q, readParam_of_resolve hdistinct hq⟩

/-- A parameter is refused if it reaches a struct with a field that is refused. -/
theorem readParam_error_of_reaches (hdistinct : (structs.map StructDef.name).Nodup)
    {d : StructDef} {text : List Char} {fault : Fault} (hd : d ∈ structs) (hmem : text ∈ d.fields)
    (hbad : readParam [] structs text = .error fault)
    (hname : Reaches (fieldsOf? structs) written d.name) :
    ∃ e, readParam [] structs written = .error e := by
  cases hread : readParam [] structs written with
  | error e => exact ⟨e, rfl⟩
  | ok p =>
    obtain ⟨q, hq⟩ := readParam_field_of_reaches hdistinct hread hname
      (fieldsOf?_of_mem hdistinct hd) text hmem
    rw [hbad] at hq
    cases hq

/-- The structs with other fields for one of them. -/
def mend (structs : List StructDef) (name : List Char) (fields : List (List Char)) :
    List StructDef :=
  structs.map fun d => if d.name == name then ⟨d.name, fields⟩ else d

/-- Mending a struct changes no name. -/
theorem map_name_mend (structs : List StructDef) (name : List Char) (fields : List (List Char)) :
    (mend structs name fields).map StructDef.name = structs.map StructDef.name := by
  unfold mend
  rw [List.map_map]
  refine List.map_congr_left fun d _ => ?_
  dsimp only [Function.comp]
  split <;> rfl

/-- Mending a struct changes the fields of no other. -/
theorem fieldsOf?_mend {other : List Char} (fields : List (List Char)) (hne : other ≠ name) :
    fieldsOf? (mend structs name fields) other = fieldsOf? structs other := by
  unfold fieldsOf? mend
  induction structs with
  | nil => rfl
  | cons d rest ih =>
    rw [List.map_cons, List.find?_cons, List.find?_cons]
    by_cases hname : (d.name == name) = true
    · have hother : (d.name == other) = false := by
        rw [beq_iff_eq.mp hname]
        exact beq_eq_false_iff_ne.mpr hne.symm
      rw [if_pos hname, hother]
      exact ih
    · rw [if_neg hname]
      cases d.name == other with
      | true => rfl
      | false => exact ih

/-- A parameter that does not reach a struct is read alike when the struct is mended. -/
theorem readParam_mend (hdistinct : (structs.map StructDef.name).Nodup)
    (fields : List (List Char)) (h : ¬Reaches (fieldsOf? structs) written name) :
    readParam [] (mend structs name fields) written = readParam [] structs written := by
  refine readParam_congr hdistinct ?_ fun other hother => fieldsOf?_mend fields ?_
  · rw [map_name_mend]
    exact hdistinct
  · rintro rfl
    exact h hother

/-- Where a parameter is refused, one of the declarations is blamed. -/
theorem parse_error_of_readParam {declarations : List String} {lefts : List (String × List Char)}
    {e : Fault} (htake : takeAllStructs [] declarations = .ok (structs, lefts))
    {group : String × List Char} (hgroup : group ∈ lefts) (hwritten : written ∈ ownTexts group.2)
    (he : readParam [] structs written = .error e) :
    ∃ declaration ∈ declarations, ∃ reason,
      parse declarations = .error (.malformedDeclaration declaration reason) := by
  cases hread : readDeclarations structs lefts with
  | ok params =>
    obtain ⟨p, hp⟩ := readDeclarations_ok_iff.mp ⟨params, hread⟩ group hgroup written hwritten
    rw [he] at hp
    cases hp
  | error blamed =>
    obtain ⟨first, hfirst, -, -, own, -, rfl⟩ := readDeclarations_error hread
    refine ⟨first.1, ?_, own.message, (parse_of_takeAllStructs htake).trans hread⟩
    rw [← map_fst_of_takeAllStructs htake]
    exact List.mem_map_of_mem hfirst

/-- Whether a parameter of a declaration reaches a struct. -/
def UsesStruct (structs : List StructDef) (name : List Char) (group : String × List Char) : Prop :=
  ∃ text ∈ ownTexts group.2, Reaches (fieldsOf? structs) text name

/-- A struct with a field that cannot be read among all structs is surfaced where it is used: the
declarations are refused if a parameter reaches it. If they are read with other fields for this
struct, then they are read as the same parameters where no parameter reaches it, and otherwise the
first declaration is blamed that has a parameter that does. -/
theorem parse_of_malformed_field {declarations : List String} {lefts : List (String × List Char)}
    {d : StructDef} {text : List Char} {fault : Fault}
    (htake : takeAllStructs [] declarations = .ok (structs, lefts)) (hd : d ∈ structs)
    (hmem : text ∈ d.fields) (hbad : readParam [] structs text = .error fault) :
    ((∃ group ∈ lefts, UsesStruct structs d.name group) →
      ∃ declaration ∈ declarations, ∃ reason,
        parse declarations = .error (.malformedDeclaration declaration reason)) ∧
    ∀ fields params, readDeclarations (mend structs d.name fields) lefts = .ok params →
      ((∀ group ∈ lefts, ¬UsesStruct structs d.name group) → parse declarations = .ok params) ∧
      ∀ before group after, lefts = before ++ group :: after →
        (∀ g ∈ before, ¬UsesStruct structs d.name g) → UsesStruct structs d.name group →
        ∃ reason, parse declarations = .error (.malformedDeclaration group.1 reason) := by
  have hdistinct := nodup_of_takeAllStructs htake .nil
  refine ⟨?_, ?_⟩
  · rintro ⟨group, hgroup, written, hwritten, hname⟩
    obtain ⟨e, he⟩ := readParam_error_of_reaches hdistinct hd hmem hbad hname
    exact parse_error_of_readParam htake hgroup hwritten he
  · intro fields params hmended
    rw [parse_of_takeAllStructs htake]
    constructor
    · intro hunused
      rw [← hmended]
      refine (readDeclarations_congr fun group hgroup written hwritten => ?_).symm
      exact readParam_mend hdistinct fields fun hname =>
        hunused group hgroup ⟨written, hwritten, hname⟩
    · rintro before group after rfl hbefore ⟨written, hwritten, hname⟩
      obtain ⟨e, he⟩ := readParam_error_of_reaches hdistinct hd hmem hbad hname
      refine readDeclarations_of_fault (fun g hg w hw => ?_) hwritten he
      rw [← readParam_mend hdistinct fields fun hname => hbefore g hg ⟨w, hw, hname⟩]
      exact readDeclarations_ok_iff.mp ⟨params, hmended⟩ g (List.mem_append_left _ hg) w hw

/-- A struct with a field of an unknown type. -/
def unknownField : StructDef := ⟨['A'], ["foo x".toList]⟩

/-- The field of an unknown type is refused. -/
theorem unknownField_refused :
    ∃ fault, readParam [] [unknownField] "foo x".toList = .error fault := by
  have hcut : cutParam "foo x".toList = .ok ⟨some ['x'], "foo".toList, []⟩ := by
    with_unfolding_all rfl
  have hinside : inside? (fieldsOf? [unknownField]) "foo".toList = none := rfl
  obtain ⟨cause, hcause⟩ : ∃ cause, AbiType.parse "foo".toList = .error cause := ⟨_, rfl⟩
  have hresolve : resolve (fieldsOf? [unknownField]) 1 [] "foo x".toList =
      some (.error (.unknownType "foo".toList (some cause))) := by
    rw [resolve_of_cut hcut]
    unfold openBase elementary
    rw [hinside, hcause]
    rfl
  exact ⟨_, readParam_of_resolve (by decide) hresolve⟩

/-- A struct with a field of an unknown type is surfaced where it is used, here below a tuple and an
array suffix. -/
theorem unknownField_surfaced :
    ∃ reason, parse ["struct A { foo x; }", "(A y)[] z"] =
      .error (.malformedDeclaration "(A y)[] z" reason) := by
  let definition : String × List Char := ("struct A { foo x; }", [])
  let use : String × List Char := ("(A y)[] z", "(A y)[] z".toList)
  have htake : takeAllStructs [] ["struct A { foo x; }", "(A y)[] z"] =
      .ok ([unknownField], [definition, use]) := by with_unfolding_all rfl
  have hown : ownTexts use.2 = ["(A y)[] z".toList] := rfl
  have hresolve : (resolve (fieldsOf? [⟨['A'], ["() x".toList]⟩]) 8 [] "(A y)[] z".toList).map
      Except.isOk = some true := by with_unfolding_all rfl
  have hmended : ∀ group ∈ [definition, use], ∀ text ∈ ownTexts group.2,
      ∃ p, readParam [] (mend [unknownField] ['A'] ["() x".toList]) text = .ok p := by
    rw [List.forall_mem_cons, List.forall_mem_singleton, hown, List.forall_mem_singleton]
    exact ⟨fun text hmem => absurd hmem List.not_mem_nil, exists_of_resolve (by decide) hresolve⟩
  have htuple : baseOf? "(A y)[] z".toList = some "(A y)".toList := by with_unfolding_all rfl
  have hfields : tupleFields? "(A y)".toList = some ["A y".toList] := rfl
  have hbase : baseOf? "A y".toList = some ['A'] := by with_unfolding_all rfl
  have huses : UsesStruct [unknownField] ['A'] use := by
    refine ⟨"(A y)[] z".toList, ?_, .tuple htuple hfields List.mem_cons_self (.base hbase rfl)⟩
    rw [hown]
    exact List.mem_cons_self
  have hunused : ∀ group ∈ [definition], ¬UsesStruct [unknownField] ['A'] group := by
    rw [List.forall_mem_singleton]
    rintro ⟨text, hmem, -⟩
    exact absurd hmem List.not_mem_nil
  obtain ⟨fault, hbad⟩ := unknownField_refused
  obtain ⟨params, hparams⟩ := readDeclarations_ok_iff.mpr hmended
  exact ((parse_of_malformed_field htake List.mem_cons_self List.mem_cons_self hbad).2 _ params
    hparams).2 [definition] use [] rfl hunused huses

/-- A struct that is used nowhere is not surfaced: not all declarations with a field that cannot be
read among all structs are refused. -/
theorem not_forall_malformed_field_surfaced :
    ¬∀ (declarations : List String) (structs : List StructDef) (lefts : List (String × List Char)),
      takeAllStructs [] declarations = .ok (structs, lefts) →
      (∃ d ∈ structs, ∃ text ∈ d.fields, ∃ fault, readParam [] structs text = .error fault) →
      ∃ declaration reason,
        parse declarations = .error (.malformedDeclaration declaration reason) := by
  intro h
  have htake : takeAllStructs [] ["struct A { foo x; }"] =
      .ok ([unknownField], [("struct A { foo x; }", [])]) := by with_unfolding_all rfl
  obtain ⟨declaration, reason, hparse⟩ := h ["struct A { foo x; }"] _ _ htake
    ⟨unknownField, List.mem_cons_self, _, List.mem_cons_self, unknownField_refused⟩
  have haccepted : parse ["struct A { foo x; }"] = .ok [] := by
    rw [parse_of_takeAllStructs htake]
    rfl
  rw [haccepted] at hparse
  cases hparse

end RollupInput.Declaration
