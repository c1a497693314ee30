import RollupInput.Proofs.Declaration.Inversion

/-!
# Declarations and what is left of them

Declarations are read in two passes. The first takes the struct definitions out of all of them, the
second reads the parameters in what is left of each. A fault of either pass blames the declaration
at which it is found, and parameters are read only if each of their texts is.
-/

namespace RollupInput.Declaration

open Abi

/-! ## Taking the definitions out -/

/-- The structs that are taken out of a declaration have distinct names if the ones known before
have. -/
theorem nodup_of_takeStructs {known structs : List StructDef} {cs left : List Char}
    (h : takeStructs known cs = .ok (structs, left)) (hknown : (known.map StructDef.name).Nodup) :
    (structs.map StructDef.name).Nodup := by
  fun_induction takeStructs known cs generalizing left with
  | case1 known cs hcut =>
    cases h
    exact hknown
  | case2 => cases h
  | case3 => cases h
  | case4 known cs before after hcut d rest hread hnew ih =>
    obtain ⟨taken, htaken, hpair⟩ := ok_of_map h
    cases hpair
    refine ih htaken (List.nodup_cons.mpr ⟨fun hmem => hnew ?_, hknown⟩)
    obtain ⟨e, he, hname⟩ := List.mem_map.mp hmem
    exact List.any_eq_true.mpr ⟨e, he, beq_iff_eq.mpr hname⟩

/-- The name of a struct that is read is an identifier. -/
theorem isIdentifier_of_readStruct {cs rest : List Char} {d : StructDef}
    (h : readStruct cs = .ok (d, rest)) : Text.isIdentifier d.name = true := by
  unfold readStruct at h
  dsimp only at h
  split at h
  · cases h
  · split at h
    · cases h
    · rename_i hidentifier
      split at h
      · cases h
      · split at h
        · cases h
        · cases h
          rwa [Bool.not_eq_true', Bool.not_eq_false] at hidentifier

/-- The structs that are taken out of a declaration have identifiers for names if the ones known
before have. -/
theorem isIdentifier_of_takeStructs {known structs : List StructDef} {cs left : List Char}
    (h : takeStructs known cs = .ok (structs, left))
    (hknown : ∀ d ∈ known, Text.isIdentifier d.name = true) :
    ∀ d ∈ structs, Text.isIdentifier d.name = true := by
  fun_induction takeStructs known cs generalizing left with
  | case1 known cs hcut =>
    cases h
    exact hknown
  | case2 => cases h
  | case3 => cases h
  | case4 known cs before after hcut d rest hread hnew ih =>
    obtain ⟨taken, htaken, hpair⟩ := ok_of_map h
    cases hpair
    exact ih htaken (List.forall_mem_cons.mpr ⟨isIdentifier_of_readStruct hread, hknown⟩)

/-- The first pass over declarations takes them one by one. -/
theorem ok_of_takeAllStructs {known structs : List StructDef} {declaration : String}
    {rest : List String} {lefts : List (String × List Char)}
    (h : takeAllStructs known (declaration :: rest) = .ok (structs, lefts)) :
    ∃ more left others, takeStructs known declaration.toList = .ok (more, left) ∧
      takeAllStructs more rest = .ok (structs, others) ∧ lefts = (declaration, left) :: others := by
  rw [takeAllStructs] at h
  cases htake : takeStructs known declaration.toList with
  | error e =>
    rw [htake] at h
    cases h
  | ok taken =>
    rw [htake] at h
    obtain ⟨both, hboth, hpair⟩ := ok_of_map h
    cases hpair
    exact ⟨taken.1, taken.2, both.2, rfl, hboth, rfl⟩

/-- The structs of declarations have distinct names. -/
theorem nodup_of_takeAllStructs {known structs : List StructDef} {declarations : List String}
    {lefts : List (String × List Char)}
    (h : takeAllStructs known declarations = .ok (structs, lefts))
    (hknown : (known.map StructDef.name).Nodup) : (structs.map StructDef.name).Nodup := by
  induction declarations generalizing known lefts with
  | nil =>
    cases h
    exact hknown
  | cons declaration rest ih =>
    obtain ⟨more, left, others, htake, hrest, -⟩ := ok_of_takeAllStructs h
    exact ih hrest (nodup_of_takeStructs htake hknown)

/-- The structs of declarations have identifiers for names. -/
theorem isIdentifier_of_takeAllStructs {known structs : List StructDef}
    {declarations : List String} {lefts : List (String × List Char)}
    (h : takeAllStructs known declarations = .ok (structs, lefts))
    (hknown : ∀ d ∈ known, Text.isIdentifier d.name = true) :
    ∀ d ∈ structs, Text.isIdentifier d.name = true := by
  induction declarations generalizing known lefts with
  | nil =>
    cases h
    exact hknown
  | cons declaration rest ih =>
    obtain ⟨more, left, others, htake, hrest, -⟩ := ok_of_takeAllStructs h
    exact ih hrest (isIdentifier_of_takeStructs htake hknown)

/-- Each declaration is kept with what is left of it. -/
theorem map_fst_of_takeAllStructs {known structs : List StructDef} {declarations : List String}
    {lefts : List (String × List Char)}
    (h : takeAllStructs known declarations = .ok (structs, lefts)) :
    lefts.map (·.1) = declarations := by
  induction declarations generalizing known lefts with
  | nil =>
    cases h
    rfl
  | cons declaration rest ih =>
    obtain ⟨more, left, others, -, hrest, rfl⟩ := ok_of_takeAllStructs h
    rw [List.map_cons, ih hrest]

/-- A fault of struct definitions blames the declaration in which they stand. -/
theorem takeAllStructs_error {known : List StructDef} {declarations : List String}
    {e : DecodeFault} (h : takeAllStructs known declarations = .error e) :
    ∃ declaration ∈ declarations, ∃ before fault,
      takeStructs before declaration.toList = .error fault ∧
        e = .malformedDeclaration declaration fault.message := by
  induction declarations generalizing known with
  | nil => cases h
  | cons declaration rest ih =>
    rw [takeAllStructs] at h
    cases htake : takeStructs known declaration.toList with
    | error fault =>
      rw [htake] at h
      cases h
      exact ⟨declaration, .head _, known, fault, htake, rfl⟩
    | ok taken =>
      rw [htake] at h
      obtain ⟨blamed, hmem, hfault⟩ := ih (error_of_map h)
      exact ⟨blamed, .tail _ hmem, hfault⟩

/-! ## Reading the parameters -/

variable {structs : List StructDef}

/-- Parameters are read exactly if the text of each is. -/
theorem readParams_ok_iff {opened : List (List Char)} {texts : List (List Char)} :
    (∃ ps, readParams opened structs texts = .ok ps) ↔
      ∀ text ∈ texts, ∃ p, readParam opened structs text = .ok p := by
  induction texts with
  | nil =>
    refine iff_of_true ⟨[], ?_⟩ fun text hmem => ?_
    · rw [readParams]
    · cases hmem
  | cons text rest ih =>
    rw [List.forall_mem_cons, ← ih, readParams]
    cases readParam opened structs text with
    | error e =>
      refine iff_of_false ?_ ?_
      · rintro ⟨ps, hps⟩
        cases hps
      · rintro ⟨⟨p, hp⟩, -⟩
        cases hp
    | ok p =>
      constructor
      · rintro ⟨ps, hps⟩
        obtain ⟨more, hmore, -⟩ := ok_of_map hps
        exact ⟨⟨p, rfl⟩, more, hmore⟩
      · rintro ⟨-, more, hmore⟩
        exact ⟨p :: more, by rw [hmore]; rfl⟩

/-- A fault of parameters is the fault of one of their texts. -/
theorem error_of_readParams {opened : List (List Char)} {texts : List (List Char)} {e : Fault}
    (h : readParams opened structs texts = .error e) :
    ∃ text ∈ texts, readParam opened structs text = .error e := by
  induction texts with
  | nil =>
    rw [readParams] at h
    cases h
  | cons text rest ih =>
    rw [readParams] at h
    cases htext : readParam opened structs text with
    | error fault =>
      rw [htext] at h
      cases h
      exact ⟨text, List.mem_cons_self, htext⟩
    | ok p =>
      rw [htext] at h
      obtain ⟨other, hother, hfault⟩ := ih (error_of_map h)
      exact ⟨other, List.mem_cons_of_mem text hother, hfault⟩

/-- Texts of which each is read alike among two lists of structs are read alike. -/
theorem readParams_congr {others : List StructDef} {opened : List (List Char)}
    {texts : List (List Char)}
    (h : ∀ text ∈ texts, readParam opened others text = readParam opened structs text) :
    readParams opened others texts = readParams opened structs texts := by
  induction texts with
  | nil => rw [readParams, readParams]
  | cons text rest ih =>
    obtain ⟨htext, hrest⟩ := List.forall_mem_cons.mp h
    rw [readParams, readParams, htext, ih hrest]

/-- The parameters of a list come in front of those of the list behind it. -/
theorem readParams_append (opened : List (List Char)) (texts more : List (List Char)) :
    readParams opened structs (texts ++ more) =
      match readParams opened structs texts with
      | .error e => .error e
      | .ok ps => (readParams opened structs more).map (ps ++ ·) := by
  induction texts with
  | nil =>
    rw [List.nil_append, readParams]
    cases readParams opened structs more <;> rfl
  | cons text rest ih =>
    rw [List.cons_append, readParams, readParams, ih]
    cases readParam opened structs text with
    | error e => rfl
    | ok p =>
      cases readParams opened structs rest with
      | error e => rfl
      | ok ps =>
        cases readParams opened structs more <;> rfl

/-- Texts in the place of others are read as these if each of them is. -/
theorem readParams_map {others : List StructDef} {opened : List (List Char)}
    {texts : List (List Char)} {f : List Char → List Char}
    (h : ∀ text ∈ texts, readParam opened others (f text) = readParam opened structs text) :
    readParams opened others (texts.map f) = readParams opened structs texts := by
  induction texts with
  | nil => rw [List.map_nil, readParams, readParams]
  | cons text rest ih =>
    obtain ⟨htext, hrest⟩ := List.forall_mem_cons.mp h
    rw [List.map_cons, readParams, readParams, htext, ih hrest]

/-- The texts of the parameters in what is left of a declaration. -/
def ownTexts (left : List Char) : List (List Char) :=
  if (Text.trim left).isEmpty then [] else cutAtSeparators ',' left

/-- The parameters of a declaration come in front of those of the declarations behind it. -/
theorem readDeclarations_cons (structs : List StructDef) (declaration : String) (left : List Char)
    (rest : List (String × List Char)) :
    readDeclarations structs ((declaration, left) :: rest) =
      match readParams [] structs (ownTexts left) with
      | .error e => .error (.malformedDeclaration declaration e.message)
      | .ok params => (readDeclarations structs rest).map (params ++ ·) := by
  have hown : (if (Text.trim left).isEmpty then .ok []
      else readParams [] structs (cutAtSeparators ',' left)) =
        readParams [] structs (ownTexts left) := by
    unfold ownTexts
    by_cases hblank : (Text.trim left).isEmpty = true
    · rw [if_pos hblank, if_pos hblank, readParams]
    · rw [if_neg hblank, if_neg hblank]
  cases hread : readParams [] structs (ownTexts left) with
  | error e => simp only [readDeclarations, hown, hread]
  | ok params => simp only [readDeclarations, hown, hread]

/-- What declarations are read as depends on the texts of the parameters only, and not on how they
are divided into declarations. -/
theorem readDeclarations_eq_ok_iff {lefts : List (String × List Char)} {params : List Param} :
    readDeclarations structs lefts = .ok params ↔
      readParams [] structs (lefts.flatMap fun group => ownTexts group.2) = .ok params := by
  induction lefts generalizing params with
  | nil =>
    rw [List.flatMap_nil, readParams, readDeclarations, Except.ok.injEq, Except.ok.injEq]
  | cons first rest ih =>
    rw [readDeclarations_cons, List.flatMap_cons, readParams_append]
    cases readParams [] structs (ownTexts first.2) with
    | error e => exact iff_of_false (fun h => by cases h) fun h => by cases h
    | ok own =>
      dsimp only
      constructor
      · intro h
        obtain ⟨more, hmore, rfl⟩ := ok_of_map h
        rw [ih.mp hmore]
        rfl
      · intro h
        obtain ⟨more, hmore, rfl⟩ := ok_of_map h
        rw [ih.mpr hmore]
        rfl

/-- Declarations are read exactly if the text of each of their parameters is. -/
theorem readDeclarations_ok_iff {lefts : List (String × List Char)} :
    (∃ ps, readDeclarations structs lefts = .ok ps) ↔
      ∀ group ∈ lefts, ∀ text ∈ ownTexts group.2, ∃ p, readParam [] structs text = .ok p := by
  induction lefts with
  | nil =>
    refine iff_of_true ⟨[], rfl⟩ fun group hmem => ?_
    cases hmem
  | cons first rest ih =>
    rw [List.forall_mem_cons, ← ih, ← readParams_ok_iff, readDeclarations_cons]
    cases readParams [] structs (ownTexts first.2) with
    | error e =>
      refine iff_of_false ?_ ?_
      · rintro ⟨ps, hps⟩
        cases hps
      · rintro ⟨⟨ps, hps⟩, -⟩
        cases hps
    | ok params =>
      constructor
      · rintro ⟨ps, hps⟩
        obtain ⟨more, hmore, -⟩ := ok_of_map hps
        exact ⟨⟨params, rfl⟩, more, hmore⟩
      · rintro ⟨-, more, hmore⟩
        exact ⟨params ++ more, by rw [hmore]; rfl⟩

/-- Declarations of which each parameter is read alike among two lists of structs are read alike. -/
theorem readDeclarations_congr {others : List StructDef} {lefts : List (String × List Char)}
    (h : ∀ group ∈ lefts, ∀ text ∈ ownTexts group.2,
      readParam [] others text = readParam [] structs text) :
    readDeclarations others lefts = readDeclarations structs lefts := by
  induction lefts with
  | nil => rfl
  | cons first rest ih =>
    obtain ⟨hfirst, hrest⟩ := List.forall_mem_cons.mp h
    rw [readDeclarations_cons, readDeclarations_cons, readParams_congr hfirst, ih hrest]

/-- The first declaration with a parameter that is not read is blamed. -/
theorem readDeclarations_of_fault {before after : List (String × List Char)}
    {group : String × List Char} {text : List Char} {fault : Fault}
    (hbefore : ∀ g ∈ before, ∀ w ∈ ownTexts g.2, ∃ p, readParam [] structs w = .ok p)
    (hmem : text ∈ ownTexts group.2) (hfault : readParam [] structs text = .error fault) :
    ∃ reason, readDeclarations structs (before ++ group :: after) =
      .error (.malformedDeclaration group.1 reason) := by
  induction before with
  | nil =>
    rw [List.nil_append, readDeclarations_cons]
    cases hown : readParams [] structs (ownTexts group.2) with
    | error e => exact ⟨e.message, rfl⟩
    | ok params =>
      obtain ⟨p, hp⟩ := readParams_ok_iff.mp ⟨params, hown⟩ text hmem
      rw [hfault] at hp
      cases hp
  | cons first rest ih =>
    obtain ⟨hfirst, hrest⟩ := List.forall_mem_cons.mp hbefore
    obtain ⟨params, hparams⟩ := readParams_ok_iff.mpr hfirst
    obtain ⟨reason, hreason⟩ := ih hrest
    refine ⟨reason, ?_⟩
    rw [List.cons_append, readDeclarations_cons, hparams, hreason]
    rfl

/-- A fault of declarations blames the one in which the text of a parameter has the fault. -/
theorem readDeclarations_error {lefts : List (String × List Char)} {e : DecodeFault}
    (h : readDeclarations structs lefts = .error e) :
    ∃ group ∈ lefts, ∃ text ∈ ownTexts group.2, ∃ fault,
      readParam [] structs text = .error fault ∧
        e = .malformedDeclaration group.1 fault.message := by
  induction lefts with
  | nil => cases h
  | cons first rest ih =>
    rw [readDeclarations_cons] at h
    cases hown : readParams [] structs (ownTexts first.2) with
    | error fault =>
      rw [hown] at h
      cases h
      obtain ⟨text, hmem, hfault⟩ := error_of_readParams hown
      exact ⟨first, List.mem_cons_self, text, hmem, fault, hfault, rfl⟩
    | ok params =>
      rw [hown] at h
      obtain ⟨group, hgroup, hfault⟩ := ih (error_of_map h)
      exact ⟨group, List.mem_cons_of_mem first hgroup, hfault⟩

/-! ## Both -/

/-- Where the definitions are taken out, what is left is read with their structs. -/
theorem parse_of_takeAllStructs {declarations : List String} {lefts : List (String × List Char)}
    (htake : takeAllStructs [] declarations = .ok (structs, lefts)) :
    parse declarations = readDeclarations structs lefts := by
  unfold parse
  rw [htake]

/-- The definitions are taken out of declarations that are read. -/
theorem takeAllStructs_of_parse {declarations : List String} {params : List Param}
    (h : parse declarations = .ok params) :
    ∃ structs lefts, takeAllStructs [] declarations = .ok (structs, lefts) ∧
      readDeclarations structs lefts = .ok params := by
  unfold parse at h
  cases htake : takeAllStructs [] declarations with
  | error e =>
    rw [htake] at h
    cases h
  | ok taken =>
    rw [htake] at h
    exact ⟨taken.1, taken.2, rfl, h⟩

end RollupInput.Declaration
