import RollupInput.Proofs.Declaration.Framed
import RollupInput.Proofs.Declaration.Reading
import RollupInput.Proofs.Declaration.Surfacing

/-!
# Structs written out

A struct is a tuple with a name: where the name of a struct stands as the base of a type, the fields
of the struct may be written between parentheses, with commas between them, and the parameter stays
the same. This is done in the text, at the place of the base, and goes on in the fields. The texts
that come of it are cut at the same places, so the procedure with the stack gives for them, without
any struct, what it gives for the texts that the names stand in.
-/

namespace RollupInput.Declaration

open Abi

/-! ## Writing out -/

/-- A list of parameters with something else for each of them. -/
def mapTexts (one : List Char → List Char) (list : List Char) : List Char :=
  if (Text.trim list).isEmpty then list
  else Text.join [','] ((cutAtSeparators ',' list).map one)

/-- The base of a type with a tuple for the name of a struct. -/
def spellOutBase (table : FieldTable) (one : List Char → List Char) (base : List Char) :
    List Char :=
  match tupleInner? base with
  | some inner => base.takeWhile (· != '(') ++ '(' :: (mapTexts one inner ++ [')'])
  | none =>
    match table base with
    | some fields => tupleText false (Text.join [','] (fields.map one))
    | none => base

/-- The text of a parameter with tuples for the names of structs, within a number of steps. What
stands around a base stays where it is. -/
def spellOut (table : FieldTable) : Nat → List Char → List Char
  | 0, written => written
  | steps + 1, written =>
    match cutParam written with
    | .error _ => written
    | .ok c =>
      written.takeWhile Text.isBlank ++ (spellOutBase table (spellOut table steps) c.base ++
        (Text.trimStart written).drop c.base.length)

/-- The text of a parameter with tuples for the names of all structs. -/
def spelledOut (structs : List StructDef) (written : List Char) : List Char :=
  spellOut (fieldsOf? structs) (structWeight structs + (3 * written.length + 2)) written

/-! ## Lists -/

/-- Texts that are put together to a list are the texts of the list. -/
theorem ownTexts_join {texts : List (List Char)}
    (h : ∀ text ∈ texts, Nested (· ≠ ',') text ∧ Text.trim text ≠ []) :
    ownTexts (Text.join [','] texts) = texts := by
  cases texts with
  | nil => rfl
  | cons first rest =>
    have hblank : ¬(Text.trim (Text.join [','] (first :: rest))).isEmpty = true := by
      rw [List.isEmpty_iff]
      intro hempty
      refine (h first List.mem_cons_self).2 (Text.trim_of_isGap fun c hc => ?_)
      exact Text.isGap_of_trim hempty c (Text.mem_join List.mem_cons_self hc)
    unfold ownTexts
    rw [if_neg hblank]
    exact cutAtSeparators_join ⟨rfl, rfl⟩ (List.cons_ne_nil first rest) fun text hmem =>
      (h text hmem).1

/-- The texts of a list are what is put in their place. -/
theorem ownTexts_mapTexts {one : List Char → List Char} {list : List Char}
    (h : ∀ text ∈ ownTexts list, Nested (· ≠ ',') (one text) ∧ Text.trim (one text) ≠ []) :
    ownTexts (mapTexts one list) = (ownTexts list).map one := by
  unfold mapTexts
  by_cases hblank : (Text.trim list).isEmpty = true
  · have hnone : ownTexts list = [] := if_pos hblank
    rw [if_pos hblank, hnone, List.map_nil]
  · have hown : ownTexts list = cutAtSeparators ',' list := if_neg hblank
    rw [if_neg hblank, ← hown]
    exact ownTexts_join (List.forall_mem_map.mpr h)

/-- A list has no keyword if none of its texts has one. -/
theorem keywordFree_of_ownTexts {list : List Char} (h : ∀ text ∈ ownTexts list, KeywordFree text) :
    KeywordFree list := by
  unfold ownTexts at h
  split at h
  · rename_i hblank
    exact (keywordFree_of_isGap (Text.isGap_of_trim (List.isEmpty_iff.mp hblank))).1
  · rw [← join_cutFrom ',' 0 list]
    exact keywordFree_join_iff.mpr h

/-! ## Bases -/

/-- The fields of a tuple are the texts between its parentheses. -/
theorem tupleFields?_tupleText (marked : Bool) (list : List Char) :
    tupleFields? (tupleText marked list) = some (ownTexts list) := by
  unfold tupleFields? ownTexts
  rw [tupleInner_tupleText, Option.map_some]

/-- A base that is a tuple is one between parentheses, with or without the word in front. -/
theorem IsBase.exists_tupleText {base inner : List Char} (h : IsBase base)
    (hinner : tupleInner? base = some inner) : ∃ marked, base = tupleText marked inner := by
  have hcut := @cutType_of_nested base [] (h.nested.mono fun _ hc => hc.1) fun c hc => by cases hc
  exact @Declaration.exists_tupleText base inner [] [] h.tight (by simpa using hcut) hinner

/-- Writing out a tuple is writing out its fields. -/
theorem spellOutBase_tupleText (table : FieldTable) (one : List Char → List Char) (marked : Bool)
    (inner : List Char) :
    spellOutBase table one (tupleText marked inner) = tupleText marked (mapTexts one inner) := by
  unfold spellOutBase
  rw [tupleInner_tupleText]
  cases marked <;> rfl

/-- Where there are fields in the place of a base, a tuple is written out that has the fields
written out. -/
theorem exists_spellOutBase {table : FieldTable} {one : List Char → List Char} {base : List Char}
    {pushed : Stack} {fields : List (List Char)} (hbase : IsBase base)
    (hinside : inside? table base = some (pushed, fields))
    (h : ∀ text ∈ fields, Nested (· ≠ ',') (one text) ∧ Text.trim (one text) ≠ []) :
    ∃ marked list, spellOutBase table one base = tupleText marked list ∧
      ownTexts list = fields.map one := by
  unfold inside? at hinside
  split at hinside
  · rename_i htuple
    obtain ⟨inner, hinner, hfields⟩ := Option.map_eq_some_iff.mp htuple
    cases hinside
    obtain ⟨marked, rfl⟩ := hbase.exists_tupleText hinner
    have hown : ownTexts inner = fields := hfields
    subst hown
    exact ⟨marked, mapTexts one inner, spellOutBase_tupleText table one marked inner,
      ownTexts_mapTexts h⟩
  · rename_i htuple
    obtain ⟨found, hfound, hpair⟩ := Option.map_eq_some_iff.mp hinside
    cases hpair
    refine ⟨false, Text.join [','] (fields.map one), ?_, ownTexts_join (List.forall_mem_map.mpr h)⟩
    unfold spellOutBase
    rw [Option.map_eq_none_iff.mp htuple, hfound]

/-- There are no fields in the place of a base if it is neither a tuple nor the name of a struct. -/
theorem inside?_eq_none_iff {table : FieldTable} {base : List Char} :
    inside? table base = none ↔ tupleFields? base = none ∧ table base = none := by
  unfold inside?
  cases tupleFields? base with
  | some fields => exact iff_of_false (fun h => by cases h) fun h => by cases h.1
  | none => rw [Option.map_eq_none_iff, and_iff_right rfl]

/-- A base in whose place there are no fields stays as it is. -/
theorem spellOutBase_of_none {table : FieldTable} {one : List Char → List Char} {base : List Char}
    (hinside : inside? table base = none) : spellOutBase table one base = base := by
  obtain ⟨htuple, htable⟩ := inside?_eq_none_iff.mp hinside
  unfold spellOutBase
  rw [Option.map_eq_none_iff.mp htuple, htable]

/-- A base is resolved the same without any struct when it is written out, if this is so for all
parameters below it and they are written out to texts of lists. -/
theorem openBase_spellOutBase {table : FieldTable} {one : List Char → List Char}
    {read bare : Stack → List Char → Attempt Param} {stack : Stack} {base : List Char}
    {resolved : AbiType × List Param} (hbase : IsBase base)
    (hone : ∀ inside text p, read inside text = some (.ok p) →
      bare [] (one text) = some (.ok p) ∧ Nested (· ≠ ',') (one text) ∧ Text.trim (one text) ≠ [])
    (hopen : openBase table read stack base = some (.ok resolved)) :
    IsBase (spellOutBase table one base) ∧
      openBase (fun _ => none) bare [] (spellOutBase table one base) = some (.ok resolved) := by
  cases hinside : inside? table base with
  | none =>
    have hnone : inside? (fun _ => none) base = none :=
      inside?_eq_none_iff.mpr ⟨(inside?_eq_none_iff.mp hinside).1, rfl⟩
    rw [spellOutBase_of_none hinside]
    refine ⟨hbase, ?_⟩
    unfold openBase at hopen ⊢
    rw [hinside] at hopen
    rw [hnone]
    exact hopen
  | some below =>
    obtain ⟨-, ps, rfl, hps⟩ := fields_of_openBase hopen hinside
    have hfields : ∀ text ∈ below.2, ∃ q, read (below.1 ++ stack) text = some (.ok q) :=
      ok_of_resolveEach hps
    obtain ⟨marked, list, hspelled, hown⟩ := exists_spellOutBase hbase hinside
      fun text hmem => (hfields text hmem).elim fun q hq => (hone _ text q hq).2
    have hnested : ∀ text ∈ ownTexts list, Nested (· ≠ ',') text := by
      rw [hown]
      refine List.forall_mem_map.mpr fun text hmem => ?_
      obtain ⟨q, hq⟩ := hfields text hmem
      exact (hone _ text q hq).2.1
    have halike : resolveEach (bare []) (ownTexts list) = some (.ok ps) := by
      rw [hown, resolveEach_map, ← hps]
      refine resolveEach_congr fun text hmem => ?_
      obtain ⟨q, hq⟩ := hfields text hmem
      rw [(hone _ text q hq).1, hq]
    rw [hspelled]
    refine ⟨isBase_tupleText (nested_of_ownTexts hnested), ?_⟩
    rw [openBase_of_tuple (tupleFields?_tupleText marked list), halike]
    rfl

/-! ## Parameters -/

/-- Writing out the base in a frame leaves the frame. -/
theorem spellOut_text {table : FieldTable} {steps : Nat} {f : Frame} {c : Cut}
    (hcut : cutParam (f.text c.base) = .ok c) (hread : f.IsRead c.name) (hbase : IsBase c.base) :
    spellOut table (steps + 1) (f.text c.base) =
      f.text (spellOutBase table (spellOut table steps) c.base) := by
  have hlead : (f.text c.base).takeWhile Text.isBlank = f.lead ∧
      Text.trimStart (f.text c.base) = c.base ++ (suffixText f.sizes ++ f.behind ++ f.trail) := by
    obtain ⟨b, rest, hb⟩ := List.exists_cons_of_ne_nil hbase.nonempty
    have hfirst : ¬Text.isBlank b = true := by
      rw [hbase.tight.1 b (by rw [hb]; rfl)]
      exact Bool.false_ne_true
    unfold Frame.text Text.trimStart
    rw [List.takeWhile_append_of_pos hread.lead, List.dropWhile_append_of_pos hread.lead, hb]
    simp only [List.cons_append, List.append_assoc, List.takeWhile_cons_of_neg hfirst,
      List.dropWhile_cons_of_neg hfirst, List.append_nil, and_self]
  rw [spellOut, hcut]
  dsimp only
  rw [hlead.1, hlead.2, List.drop_left]
  unfold Frame.text
  simp only [List.append_assoc]

section

variable {table : FieldTable} {steps : Nat} {stack : Stack} {written : List Char} {p : Param}
  (hnames : ∀ name fields, table name = some fields → Text.isIdentifier name = true)

include hnames

/-- A parameter that is read is written out in its frame. -/
theorem exists_spellOut (h : resolve table (steps + 1) stack written = some (.ok p)) :
    ∃ c f resolved, cutParam written = .ok c ∧ Frame.IsRead f c.name ∧ f.sizes = c.suffixes ∧
      IsBase c.base ∧ spellOut table (steps + 1) written =
        f.text (spellOutBase table (spellOut table steps) c.base) ∧
      openBase table (resolve table steps) stack c.base = some (.ok resolved) ∧
      c.param resolved = .ok p := by
  obtain ⟨c, f, hcut, hread, hsizes, rfl, hbase⟩ := exists_frame_of_resolve hnames h
  obtain ⟨d, resolved, hcut', hopen, hparam⟩ := ok_of_resolve h
  obtain rfl : c = d := Except.ok.inj (hcut.symm.trans hcut')
  exact ⟨c, f, resolved, hcut, hread, hsizes, hbase, spellOut_text hcut hread hbase, hopen, hparam⟩

/-- A parameter that is read is read the same without any struct when it is written out. It is
nested then and not blank, so it can be a text of a list. -/
theorem resolve_spellOut (h : resolve table steps stack written = some (.ok p)) :
    resolve (fun _ => none) steps [] (spellOut table steps written) = some (.ok p) ∧
      Nested (· ≠ ',') (spellOut table steps written) ∧
      Text.trim (spellOut table steps written) ≠ [] := by
  induction steps generalizing stack written p with
  | zero => cases h
  | succ steps ih =>
    obtain ⟨c, f, resolved, hcut, hread, hsizes, hbase, htext, hopen, hparam⟩ :=
      exists_spellOut hnames h
    have hwritten := openBase_spellOutBase hbase (fun _ _ _ hq => ih hq) hopen
    rw [htext]
    refine ⟨?_, f.nested_text hread hwritten.1, f.trim_text_ne_nil hread hwritten.1⟩
    rw [resolve_of_cut (f.cutParam_text hread hwritten.1), hwritten.2]
    dsimp only [Option.map_some]
    rw [bind_of_ok rfl, ← hparam, hsizes]
    rfl

end

/-! ## Keywords -/

/-- A base does not end with a bracket that closes. -/
theorem IsBase.noSuffix {base : List Char} (h : IsBase base) :
    ∀ rest, base.reverse = ']' :: rest → ')' ∈ rest.takeWhile (· != '[') := by
  intro rest hrest
  have hlast : base.getLast? = some ']' := by
    rw [← List.head?_reverse, hrest]
    rfl
  exact absurd rfl (h.last ']' hlast)

/-- A base that is resolved as an elementary type is a name. -/
theorem IsBase.isTypeName {base : List Char} {t : AbiType} (h : IsBase base)
    (ht : elementary base = .ok t) : IsTypeName base :=
  isTypeName_of_elementary ht h.noSuffix

/-- The keyword of a definition is no elementary type. -/
theorem elementary_keyword (t : AbiType) : elementary keyword ≠ .ok t := by
  intro h
  obtain ⟨cause, hcause⟩ : ∃ cause, AbiType.parse keyword = .error cause := ⟨_, rfl⟩
  unfold elementary at h
  rw [hcause] at h
  cases h

/-- The texts of parameters and fields that stand in declarations out of which the definitions are
taken, in the definitions, and between the parentheses of such a text. -/
inductive StandsIn (structs : List StructDef) (lefts : List (String × List Char)) :
    List Char → Prop where
  /-- A parameter of a declaration. -/
  | parameter {group : String × List Char} {text : List Char} (hgroup : group ∈ lefts)
      (htext : text ∈ ownTexts group.2) : StandsIn structs lefts text
  /-- A field of a struct. -/
  | ofStruct {d : StructDef} {text : List Char} (hd : d ∈ structs) (htext : text ∈ d.fields) :
      StandsIn structs lefts text
  /-- A field of a tuple. -/
  | ofTuple {written base text : List Char} {fields : List (List Char)}
      (hwritten : StandsIn structs lefts written) (hbase : baseOf? written = some base)
      (hfields : tupleFields? base = some fields) (htext : text ∈ fields) :
      StandsIn structs lefts text

/-- Whether no parameter and no field has the keyword of a definition for its name. -/
def NoKeywordNames (structs : List StructDef) (lefts : List (String × List Char)) : Prop :=
  ∀ text, StandsIn structs lefts text → ∀ c, cutParam text = .ok c → c.name ≠ some keyword

/-- Whether the keyword of a definition is no part of the name of a type that has points in it. -/
def NoKeywordParts (structs : List StructDef) (lefts : List (String × List Char)) : Prop :=
  ∀ text, StandsIn structs lefts text → ∀ c, cutParam text = .ok c →
    tupleFields? c.base = none → '.' ∈ c.base → KeywordFree c.base

section

variable {structs : List StructDef} {lefts : List (String × List Char)} {written : List Char}
  {steps : Nat} {stack : Stack} {p : Param}

/-- The fields in the place of a base stand in the declarations if the parameter does. -/
theorem StandsIn.inside {base text : List Char} {pushed : Stack} {fields : List (List Char)}
    (h : StandsIn structs lefts written) (hbase : baseOf? written = some base)
    (hinside : inside? (fieldsOf? structs) base = some (pushed, fields)) (hmem : text ∈ fields) :
    StandsIn structs lefts text := by
  unfold inside? at hinside
  split at hinside
  · rename_i htuple
    cases hinside
    exact .ofTuple h hbase htuple hmem
  · obtain ⟨found, hfound, hpair⟩ := Option.map_eq_some_iff.mp hinside
    cases hpair
    obtain ⟨d, hfind, rfl⟩ := Option.map_eq_some_iff.mp hfound
    exact .ofStruct (List.mem_of_find?_eq_some hfind) hmem

variable (hnames : ∀ name fields, fieldsOf? structs name = some fields →
    Text.isIdentifier name = true)
  (hwords : NoKeywordNames structs lefts) (hparts : NoKeywordParts structs lefts)

include hnames hwords hparts

/-- A parameter that is read and written out has no keyword, unless a name or a part of a type is
the keyword. -/
theorem keywordFree_spellOut (h : resolve (fieldsOf? structs) steps stack written = some (.ok p))
    (hstands : StandsIn structs lefts written) :
    KeywordFree (spellOut (fieldsOf? structs) steps written) := by
  induction steps generalizing stack written p with
  | zero => cases h
  | succ steps ih =>
    obtain ⟨c, f, resolved, hcut, hread, -, hbase, htext, hopen, -⟩ := exists_spellOut hnames h
    rw [htext]
    refine f.keywordFree_text hread (hwords written hstands c hcut) ?_
    cases hinside : inside? (fieldsOf? structs) c.base with
    | none =>
      obtain ⟨t, ht, -⟩ := elementary_of_openBase hopen hinside
      have hname := hbase.isTypeName ht
      rw [spellOutBase_of_none hinside]
      by_cases hpoint : '.' ∈ c.base
      · exact hparts written hstands c hcut (inside?_eq_none_iff.mp hinside).1 hpoint
      · refine .of_run (fun x hx => ?_) fun heq => elementary_keyword t (heq ▸ ht)
        refine (hname.2 x hx).resolve_right fun hx' => hpoint (hx' ▸ hx)
    | some below =>
      obtain ⟨-, hfields⟩ := ok_of_openBase hopen hinside
      obtain ⟨marked, list, hspelled, hown⟩ := exists_spellOutBase hbase hinside
        fun text hmem => (hfields text hmem).elim fun q hq => (resolve_spellOut hnames hq).2
      rw [hspelled]
      refine keywordFree_tupleText (keywordFree_of_ownTexts ?_)
      rw [hown]
      refine List.forall_mem_map.mpr fun text hmem => ?_
      obtain ⟨q, hq⟩ := hfields text hmem
      exact ih hq (hstands.inside (baseOf?_of_cutParam hcut) hinside hmem)

end

/-! ## Declarations -/

/-- Declarations in which no keyword stands are read as their parameters are without any struct. -/
theorem parse_eq_ok_iff_of_keywordFree {texts : List (List Char)} {params : List Param}
    (h : ∀ text ∈ texts, KeywordFree text) :
    parse (texts.map String.ofList) = .ok params ↔
      readParams [] [] (texts.flatMap ownTexts) = .ok params := by
  have hnone : ∀ s ∈ texts.map String.ofList, cutAtKeyword? false s.toList = none := by
    refine List.forall_mem_map.mpr fun text hmem => ?_
    rw [String.toList_ofList]
    exact cutAtKeyword?_of_keywordFree (h text hmem)
  rw [parse_of_takeAllStructs (takeAllStructs_of_cutAtKeyword? hnone []),
    readDeclarations_eq_ok_iff, List.flatMap_map, List.flatMap_map]
  simp only [String.toList_ofList]

/-- The table of the structs of declarations has only identifiers for names. -/
theorem isIdentifier_of_fieldsOf? {declarations : List String} {structs : List StructDef}
    {lefts : List (String × List Char)}
    (htake : takeAllStructs [] declarations = .ok (structs, lefts)) :
    ∀ name fields, fieldsOf? structs name = some fields → Text.isIdentifier name = true := by
  intro name fields hfields
  have hname := isSome_fieldsOf?_iff.mp (Option.isSome_of_eq_some hfields)
  obtain ⟨d, hd, rfl⟩ := List.mem_map.mp hname
  exact isIdentifier_of_takeAllStructs htake (List.forall_mem_nil _) d hd

/-- What is left of declarations without the definitions, with tuples for the names of structs. -/
def spelledOutTexts (structs : List StructDef) (lefts : List (String × List Char)) :
    List (List Char) :=
  lefts.map fun group => mapTexts (spelledOut structs) group.2

/-- Declarations that are read are read the same without their definitions when the structs are
written out, if no name and no part of a type is the keyword. -/
theorem parse_spelledOutTexts {declarations : List String} {structs : List StructDef}
    {lefts : List (String × List Char)} {params : List Param}
    (htake : takeAllStructs [] declarations = .ok (structs, lefts))
    (hread : readDeclarations structs lefts = .ok params) (hwords : NoKeywordNames structs lefts)
    (hparts : NoKeywordParts structs lefts) :
    parse ((spelledOutTexts structs lefts).map String.ofList) = .ok params := by
  have hdistinct := nodup_of_takeAllStructs htake .nil
  have hnames := isIdentifier_of_fieldsOf? htake
  have hresolve : ∀ group ∈ lefts, ∀ text ∈ ownTexts group.2, ∃ p,
      resolve (fieldsOf? structs) (structWeight structs + (3 * text.length + 2)) [] text =
        some (.ok p) := by
    intro group hgroup text hmem
    obtain ⟨p, hp⟩ := readDeclarations_ok_iff.mp ⟨params, hread⟩ group hgroup text hmem
    exact ⟨p, (resolve_eventually hdistinct text (Nat.le_refl _)).trans (congrArg some hp)⟩
  have hown : ∀ group ∈ lefts, ownTexts (mapTexts (spelledOut structs) group.2) =
      (ownTexts group.2).map (spelledOut structs) := by
    intro group hgroup
    refine ownTexts_mapTexts fun text hmem => ?_
    obtain ⟨p, hp⟩ := hresolve group hgroup text hmem
    exact (resolve_spellOut hnames hp).2
  have hfree : ∀ text ∈ spelledOutTexts structs lefts, KeywordFree text := by
    refine List.forall_mem_map.mpr fun group hgroup => keywordFree_of_ownTexts ?_
    rw [hown group hgroup]
    refine List.forall_mem_map.mpr fun text hmem => ?_
    obtain ⟨p, hp⟩ := hresolve group hgroup text hmem
    exact keywordFree_spellOut hnames hwords hparts hp (.parameter hgroup hmem)
  have htexts : (spelledOutTexts structs lefts).flatMap ownTexts =
      (lefts.flatMap fun group => ownTexts group.2).map (spelledOut structs) := by
    unfold spelledOutTexts
    rw [List.flatMap_map, List.map_flatMap]
    exact List.flatMap_congr hown
  rw [parse_eq_ok_iff_of_keywordFree hfree, htexts, readParams_map,
    readDeclarations_eq_ok_iff.mp hread]
  intro text hmem
  obtain ⟨group, hgroup, hmem⟩ := List.mem_flatMap.mp hmem
  obtain ⟨p, hp⟩ := hresolve group hgroup text hmem
  have hbare : readParam [] [] (spelledOut structs text) = .ok p :=
    @readParam_of_resolve [] List.nodup_nil _ _ _ (resolve_spellOut hnames hp).1
  rw [hbare, readParam_of_resolve hdistinct hp]

end RollupInput.Declaration
