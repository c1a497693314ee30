import Mathlib.Data.List.Perm.Basic
import RollupInput.Proofs.Declaration.Alone
import RollupInput.Proofs.Declaration.Definitions
import RollupInput.Proofs.Declaration.Inlining
import RollupInput.Proofs.Declaration.Surfacing

/-!
# Definitions elsewhere

The structs of all declarations are visible in each of them, so it does not matter where a
definition stands. Definitions may be moved to declarations of their own, in any order and anywhere
among the others: the same structs are taken out, and the same parameters are left.
-/

namespace RollupInput.Declaration

open Abi

/-! ## Groups -/

/-- A declaration that is put together anew. -/
inductive Group where
  /-- Parameters only. -/
  | parameters (text : List Char)
  /-- Definitions only, each with what stands in front of it, and what stands behind them. -/
  | definitions (pieces : List (List Char × Definition)) (trail : List Char)

namespace Group

/-- The text of a declaration. -/
def text : Group → List Char
  | .parameters text => text
  | .definitions pieces trail => pieces.flatMap (fun piece => piece.1 ++ piece.2.text) ++ trail

/-- What is left of a declaration without its definitions. -/
def left : Group → List Char
  | .parameters text => text
  | .definitions pieces trail => pieces.flatMap Prod.fst ++ trail

/-- The text of a declaration of parameters. -/
def parameters? : Group → Option (List Char)
  | .parameters text => some text
  | .definitions _ _ => none

/-- The definitions of a declaration. -/
def moved : Group → List Definition
  | .parameters _ => []
  | .definitions pieces _ => pieces.map Prod.snd

/-- Whether only blanks stand around definitions. -/
def IsSpaced : Group → Prop
  | .parameters _ => True
  | .definitions pieces trail => (∀ piece ∈ pieces, Text.IsGap piece.1) ∧ Text.IsGap trail

instance (g : Group) : Decidable g.IsSpaced :=
  match g with
  | .parameters _ => .isTrue trivial
  | .definitions pieces trail =>
    inferInstanceAs (Decidable ((∀ piece ∈ pieces, Text.IsGap piece.1) ∧ Text.IsGap trail))

/-- Whether a declaration is read as it is meant: no definition stands among the parameters, and each
of the definitions is read. -/
def IsRead : Group → Prop
  | .parameters text => cutAtKeyword? false text = none
  | .definitions pieces _ => ∀ piece ∈ pieces, piece.2.IsRead

end Group

/-- The texts that are not blank. -/
def nonBlankTexts (texts : List (List Char)) : List (List Char) :=
  texts.filter fun text => !(Text.trim text).isEmpty

/-- Whether the definitions of declarations are moved to declarations of their own. What is left of
the others stays in order, and blank declarations may come and go. -/
structure IsRegrouped (declarations : List String) (lefts : List (String × List Char))
    (groups : List Group) : Prop where
  /-- The parameters are those that are left. -/
  parameters : nonBlankTexts (groups.filterMap Group.parameters?) =
    nonBlankTexts (lefts.map Prod.snd)
  /-- The definitions are the same, in any order. -/
  definitions : (groups.flatMap Group.moved).Perm
    (declarations.flatMap fun s => definitionsIn s.toList)
  /-- Blanks stand around the definitions. -/
  spaced : ∀ g ∈ groups, g.IsSpaced

/-- Taking a definition out is taking the others out of what stands behind it. -/
theorem takeStructs_of_cut {known : List StructDef} {cs before after rest : List Char}
    {d : StructDef} (hcut : cutAtKeyword? false cs = some (before, after))
    (hread : readStruct after = .ok (d, rest)) (hnew : d.name ∉ known.map StructDef.name) :
    takeStructs known cs = (takeStructs (d :: known) rest).map fun p => (p.1, before ++ p.2) := by
  have hany : ¬known.any (·.name == d.name) = true := by
    rw [List.any_eq_true]
    rintro ⟨e, he, hname⟩
    exact hnew (beq_iff_eq.mp hname ▸ List.mem_map_of_mem he)
  conv_lhs => rw [takeStructs]
  split
  · rename_i hnone
    rw [hcut] at hnone
    cases hnone
  · rename_i hsome
    rw [hcut] at hsome
    cases hsome
    split
    · rename_i hfault
      rw [hread] at hfault
      cases hfault
    · rename_i hsame
      rw [hread] at hsame
      cases hsame
      exact if_neg hany

/-- All definitions are taken out of a declaration that has only definitions, if their names are
new. -/
theorem takeStructs_pieces {pieces : List (List Char × Definition)} {trail : List Char}
    {known : List StructDef} (hread : ∀ piece ∈ pieces, Text.IsGap piece.1 ∧ piece.2.IsRead)
    (htrail : Text.IsGap trail)
    (hnew : (((pieces.map fun piece => piece.2.struct).reverse ++ known).map
      StructDef.name).Nodup) :
    takeStructs known (pieces.flatMap (fun piece => piece.1 ++ piece.2.text) ++ trail) =
      .ok ((pieces.map fun piece => piece.2.struct).reverse ++ known,
        pieces.flatMap Prod.fst ++ trail) := by
  induction pieces generalizing known with
  | nil => exact takeStructs_of_keywordFree (keywordFree_of_isGap htrail).1 known
  | cons piece rest ih =>
    obtain ⟨⟨hgap, hfirst⟩, hrest⟩ := List.forall_mem_cons.mp hread
    have hstructs : ((piece :: rest).map fun x => x.2.struct).reverse ++ known =
        (rest.map fun x => x.2.struct).reverse ++ (piece.2.struct :: known) := by
      rw [List.map_cons, List.reverse_cons, List.append_assoc, List.singleton_append]
    rw [hstructs] at hnew ⊢
    have hname : piece.2.struct.name ∉ known.map StructDef.name := by
      rw [List.map_append, List.map_cons] at hnew
      exact (List.nodup_cons.mp (List.nodup_append.mp hnew).2.1).1
    have htext : (piece :: rest).flatMap (fun x => x.1 ++ x.2.text) ++ trail =
        piece.1 ++ (keyword ++ (piece.2.body ++
          (rest.flatMap (fun x => x.1 ++ x.2.text) ++ trail))) := by
      rw [List.flatMap_cons, Definition.text]
      simp only [List.append_assoc]
    rw [htext, takeStructs_of_cut (cutAtKeyword?_gap_append hgap (hfirst.word _)) (hfirst.read _)
      hname, ih hrest hnew, List.flatMap_cons, List.append_assoc]
    rfl

/-- The definitions are taken out of a declaration that is put together anew. -/
theorem Group.takeStructs_text {g : Group} {known : List StructDef} (hspaced : g.IsSpaced)
    (hread : g.IsRead)
    (hnew : (((g.moved.map Definition.struct).reverse ++ known).map StructDef.name).Nodup) :
    takeStructs known g.text = .ok ((g.moved.map Definition.struct).reverse ++ known, g.left) := by
  cases g with
  | parameters text => exact takeStructs_of_cutAtKeyword? hread known
  | definitions pieces trail =>
    have hmoved : (Group.definitions pieces trail).moved.map Definition.struct =
        pieces.map fun piece => piece.2.struct := List.map_map
    rw [hmoved] at hnew ⊢
    exact takeStructs_pieces (fun piece hmem => ⟨hspaced.1 piece hmem, hread piece hmem⟩) hspaced.2
      hnew

/-- The definitions are taken out of declarations that are put together anew. -/
theorem takeAllStructs_groups {groups : List Group} {known : List StructDef}
    (hspaced : ∀ g ∈ groups, g.IsSpaced) (hread : ∀ g ∈ groups, g.IsRead)
    (hnew : ((((groups.flatMap Group.moved).map Definition.struct).reverse ++ known).map
      StructDef.name).Nodup) :
    takeAllStructs known (groups.map fun g => String.ofList g.text) =
      .ok (((groups.flatMap Group.moved).map Definition.struct).reverse ++ known,
        groups.map fun g => (String.ofList g.text, g.left)) := by
  induction groups generalizing known with
  | nil => rfl
  | cons g rest ih =>
    obtain ⟨hgap, hgaps⟩ := List.forall_mem_cons.mp hspaced
    obtain ⟨hfirst, hrest⟩ := List.forall_mem_cons.mp hread
    have hstructs : (((g :: rest).flatMap Group.moved).map Definition.struct).reverse ++ known =
        ((rest.flatMap Group.moved).map Definition.struct).reverse ++
          ((g.moved.map Definition.struct).reverse ++ known) := by
      rw [List.flatMap_cons, List.map_append, List.reverse_append, List.append_assoc]
    rw [hstructs] at hnew ⊢
    have hown : (((g.moved.map Definition.struct).reverse ++ known).map StructDef.name).Nodup := by
      rw [List.map_append] at hnew
      exact (List.nodup_append.mp hnew).2.1
    rw [List.map_cons, takeAllStructs, String.toList_ofList, g.takeStructs_text hgap hfirst hown]
    dsimp only
    rw [ih hgaps hrest hnew]
    rfl

/-- Blank texts have no parameters. -/
theorem flatMap_ownTexts_nonBlankTexts (texts : List (List Char)) :
    (nonBlankTexts texts).flatMap ownTexts = texts.flatMap ownTexts := by
  unfold nonBlankTexts
  induction texts with
  | nil => rfl
  | cons text rest ih =>
    by_cases hblank : (Text.trim text).isEmpty = true
    · have hnone : ownTexts text = [] := if_pos hblank
      have hdropped : ¬(!(Text.trim text).isEmpty) = true := by
        rw [hblank]
        exact Bool.false_ne_true
      rw [List.filter_cons, if_neg hdropped, ih, List.flatMap_cons, hnone, List.nil_append]
    · have hkept : (!(Text.trim text).isEmpty) = true := by
        rw [Bool.eq_false_iff.mpr hblank]
        rfl
      rw [List.filter_cons, if_pos hkept, List.flatMap_cons, List.flatMap_cons, ih]

/-- The parameters of declarations that are put together anew are those of the declarations of
parameters. -/
theorem flatMap_ownTexts_left {groups : List Group} (hspaced : ∀ g ∈ groups, g.IsSpaced) :
    (groups.flatMap fun g => ownTexts g.left) =
      (groups.filterMap Group.parameters?).flatMap ownTexts := by
  induction groups with
  | nil => rfl
  | cons g rest ih =>
    obtain ⟨hgap, hgaps⟩ := List.forall_mem_cons.mp hspaced
    rw [List.flatMap_cons, ih hgaps]
    cases g with
    | parameters text => rfl
    | definitions pieces trail =>
      have hblank : Text.IsGap (Group.definitions pieces trail).left := by
        intro c hc
        rcases List.mem_append.mp hc with hc | hc
        · obtain ⟨piece, hpiece, hc⟩ := List.mem_flatMap.mp hc
          exact hgap.1 piece hpiece c hc
        · exact hgap.2 c hc
      have hnone : ownTexts (Group.definitions pieces trail).left = [] :=
        if_pos (List.isEmpty_iff.mpr (Text.trim_of_isGap hblank))
      rw [hnone]
      rfl

/-- Tables of lists with the same structs are the same, in whatever order. -/
theorem fieldsOf?_of_perm {structs others : List StructDef} (hperm : others.Perm structs)
    (hdistinct : (structs.map StructDef.name).Nodup) : fieldsOf? others = fieldsOf? structs := by
  have hothers : (others.map StructDef.name).Nodup := (hperm.map _).nodup_iff.mpr hdistinct
  funext name
  cases hname : fieldsOf? structs name with
  | some fields =>
    obtain ⟨d, hfind, rfl⟩ := Option.map_eq_some_iff.mp hname
    have hd := hperm.mem_iff.mpr (List.mem_of_find?_eq_some hfind)
    have heq : (d.name == name) = true :=
      List.find?_some (p := fun e : StructDef => e.name == name) hfind
    rw [← beq_iff_eq.mp heq]
    exact fieldsOf?_of_mem hothers hd
  | none =>
    have hnot : ¬(fieldsOf? others name).isSome = true := by
      rw [isSome_fieldsOf?_iff, (hperm.map StructDef.name).mem_iff, ← isSome_fieldsOf?_iff, hname]
      exact Bool.false_ne_true
    exact Option.not_isSome_iff_eq_none.mp hnot

/-- Declarations that are read are read the same when the definitions are moved to declarations of
their own. -/
theorem parse_regrouped {declarations : List String} {structs : List StructDef}
    {lefts : List (String × List Char)} {params : List Param} {groups : List Group}
    (htake : takeAllStructs [] declarations = .ok (structs, lefts))
    (hread : readDeclarations structs lefts = .ok params)
    (h : IsRegrouped declarations lefts groups) :
    parse (groups.map fun g => String.ofList g.text) = .ok params := by
  have hdistinct := nodup_of_takeAllStructs htake .nil
  obtain ⟨hstructs, hdefinitions, hlefts⟩ := of_takeAllStructs htake
  have hperm : (((groups.flatMap Group.moved).map Definition.struct).reverse ++ []).Perm
      structs := by
    rw [hstructs, List.append_nil, List.append_nil]
    exact (List.reverse_perm _).trans
      ((h.definitions.map Definition.struct).trans (List.reverse_perm _).symm)
  have hnames := (hperm.map StructDef.name).nodup_iff.mpr hdistinct
  have hgroups : ∀ g ∈ groups, g.IsRead := by
    intro g hg
    cases g with
    | parameters text =>
      by_cases hblank : (Text.trim text).isEmpty = true
      · have hgap := Text.isGap_of_trim (List.isEmpty_iff.mp hblank)
        exact cutAtKeyword?_of_keywordFree (keywordFree_of_isGap hgap).1
      · have hmem : text ∈ nonBlankTexts (groups.filterMap Group.parameters?) := by
          refine List.mem_filter.mpr ⟨List.mem_filterMap.mpr ⟨_, hg, rfl⟩, ?_⟩
          rw [Bool.eq_false_iff.mpr hblank]
          rfl
        rw [h.parameters] at hmem
        obtain ⟨group, hgroup, rfl⟩ := List.mem_map.mp (List.mem_filter.mp hmem).1
        exact hlefts group hgroup
    | definitions pieces trail =>
      intro piece hpiece
      have hmoved : piece.2 ∈ groups.flatMap Group.moved :=
        List.mem_flatMap.mpr ⟨_, hg, List.mem_map_of_mem hpiece⟩
      obtain ⟨s, hs, hd⟩ := List.mem_flatMap.mp (h.definitions.mem_iff.mp hmoved)
      exact hdefinitions s hs piece.2 hd
  have htexts : ((groups.map fun g => (String.ofList g.text, g.left)).flatMap
      fun group => ownTexts group.2) = lefts.flatMap fun group => ownTexts group.2 := by
    rw [List.flatMap_map, flatMap_ownTexts_left h.spaced, ← flatMap_ownTexts_nonBlankTexts,
      h.parameters, flatMap_ownTexts_nonBlankTexts, List.flatMap_map]
  rw [parse_of_takeAllStructs (takeAllStructs_groups h.spaced hgroups hnames)]
  refine readDeclarations_eq_ok_iff.mpr ?_
  rw [htexts, ← readDeclarations_eq_ok_iff.mp hread]
  refine readParams_congr fun text _ => readParam_congr hdistinct hnames fun name _ => ?_
  rw [fieldsOf?_of_perm hperm hdistinct]

/-! ## Named tuples -/

/-- Structs are named tuples, and they are visible everywhere. Declarations in which no parameter and
no field has the keyword for its name are read as the same parameters without their definitions when
the structs are written out as tuples, provided that no name of a type with points in it has the
keyword for a part; and they are read as the same parameters when the definitions are moved to
declarations of their own, in any order and anywhere among the others. -/
theorem structs_are_named_tuples {declarations : List String} {structs : List StructDef}
    {lefts : List (String × List Char)} {params : List Param}
    (htake : takeAllStructs [] declarations = .ok (structs, lefts))
    (hparse : parse declarations = .ok params) (hwords : NoKeywordNames structs lefts) :
    (NoKeywordParts structs lefts →
      parse ((spelledOutTexts structs lefts).map String.ofList) = .ok params) ∧
    ∀ groups, IsRegrouped declarations lefts groups →
      parse (groups.map fun g => String.ofList g.text) = .ok params := by
  have hread := (parse_of_takeAllStructs htake).symm.trans hparse
  exact ⟨parse_spelledOutTexts htake hread hwords, fun groups => parse_regrouped htake hread⟩

/-- If all texts of declarations and the texts between their parentheses are among some texts that
are cut, then all that stands in the declarations is. -/
theorem StandsIn.exists_cut {structs : List StructDef} {lefts : List (String × List Char)}
    {cuts : List (List Char × Cut)} (hcuts : ∀ q ∈ cuts, cutParam q.1 = .ok q.2)
    (hown : ∀ group ∈ lefts, ∀ text ∈ ownTexts group.2, text ∈ cuts.map Prod.fst)
    (hfields : ∀ d ∈ structs, ∀ text ∈ d.fields, text ∈ cuts.map Prod.fst)
    (htuples : ∀ q ∈ cuts, ∀ fields ∈ tupleFields? q.2.base, ∀ text ∈ fields,
      text ∈ cuts.map Prod.fst)
    {text : List Char} {c : Cut} (h : StandsIn structs lefts text)
    (hcut : cutParam text = .ok c) : (text, c) ∈ cuts := by
  have hmem : text ∈ cuts.map Prod.fst := by
    clear hcut
    induction h with
    | parameter hgroup htext => exact hown _ hgroup _ htext
    | ofStruct hd htext => exact hfields _ hd _ htext
    | ofTuple _ hbase htuple htext ih =>
      obtain ⟨q, hq, rfl⟩ := List.mem_map.mp ih
      rw [baseOf?_of_cutParam (hcuts q hq)] at hbase
      cases hbase
      exact htuples q hq _ htuple _ htext
  obtain ⟨q, hq, rfl⟩ := List.mem_map.mp hmem
  obtain rfl : q.2 = c := Except.ok.inj ((hcuts q hq).symm.trans hcut)
  exact hq

/-- A struct that is used with a suffix by a struct in front of its definition. -/
def forwardUse : List String := ["struct A { B[2] b; } A x", "struct B { () u; }"]

/-- The structs of the declarations. -/
def forwardStructs : List StructDef := [⟨['B'], ["() u".toList]⟩, ⟨['A'], ["B[2] b".toList]⟩]

/-- What is left of the declarations. -/
def forwardLefts : List (String × List Char) :=
  [("struct A { B[2] b; } A x", " A x".toList), ("struct B { () u; }", [])]

/-- The field of `B`. -/
def forwardUnit : Param := ⟨some "u", (AbiType.tuple []).text, .tuple [], []⟩

/-- The field of `A`. -/
def forwardField : Param :=
  let type : AbiType := .fixedArray (.tuple [.tuple []]) 2
  ⟨some "b", type.text, type, [forwardUnit]⟩

/-- The parameter of the declarations. -/
def forwardParam : Param :=
  let type : AbiType := .tuple [.fixedArray (.tuple [.tuple []]) 2]
  ⟨some "x", type.text, type, [forwardField]⟩

/-- The cuts of all that stands in the declarations. -/
def forwardCuts : List (List Char × Cut) :=
  [(" A x".toList, ⟨some ['x'], ['A'], []⟩), ("B[2] b".toList, ⟨some ['b'], ['B'], [['2']]⟩),
    ("() u".toList, ⟨some ['u'], ['(', ')'], []⟩)]

/-- The texts in the declarations are cut. -/
theorem forwardCuts_cut : ∀ q ∈ forwardCuts, cutParam q.1 = .ok q.2 := by
  have hx : cutParam " A x".toList = .ok ⟨some ['x'], ['A'], []⟩ := by with_unfolding_all rfl
  have hb : cutParam "B[2] b".toList = .ok ⟨some ['b'], ['B'], [['2']]⟩ := by with_unfolding_all rfl
  have hu : cutParam "() u".toList = .ok ⟨some ['u'], ['(', ')'], []⟩ := by with_unfolding_all rfl
  unfold forwardCuts
  rw [List.forall_mem_cons, List.forall_mem_cons, List.forall_mem_singleton]
  exact ⟨hx, hb, hu⟩

/-- The declarations are read, and the same without the structs and with the definitions moved. -/
theorem forwardUse_read : parse forwardUse = .ok [forwardParam] ∧
    parse [" ((() u)[2] b) x", ""] = .ok [forwardParam] ∧
    parse ["struct B { () u; }", " A x", " struct A { B[2] b; }\n"] = .ok [forwardParam] := by
  have htake : takeAllStructs [] forwardUse = .ok (forwardStructs, forwardLefts) := by
    with_unfolding_all rfl
  have hparse : parse forwardUse = .ok [forwardParam] := by with_unfolding_all rfl
  have hstands : ∀ text, StandsIn forwardStructs forwardLefts text → ∀ c, cutParam text = .ok c →
      (text, c) ∈ forwardCuts := by
    intro text h c hcut
    refine StandsIn.exists_cut forwardCuts_cut ?_ ?_ ?_ h hcut
    · decide
    · decide
    · decide
  have hwords : NoKeywordNames forwardStructs forwardLefts := by
    have hall : ∀ q ∈ forwardCuts, q.2.name ≠ some keyword := by decide
    exact fun text h c hcut => hall _ (hstands text h c hcut)
  have hparts : NoKeywordParts forwardStructs forwardLefts := by
    have hall : ∀ q ∈ forwardCuts, '.' ∉ q.2.base := by decide
    exact fun text h c hcut _ hpoint => absurd hpoint (hall _ (hstands text h c hcut))
  have hspelled : (spelledOutTexts forwardStructs forwardLefts).map String.ofList =
      [" ((() u)[2] b) x", ""] := by with_unfolding_all rfl
  have hin : (forwardUse.flatMap fun s => definitionsIn s.toList) =
      [⟨" A { B[2] b; }".toList, ⟨['A'], ["B[2] b".toList]⟩⟩,
        ⟨" B { () u; }".toList, ⟨['B'], ["() u".toList]⟩⟩] := by with_unfolding_all rfl
  have hregrouped : IsRegrouped forwardUse forwardLefts
      [.definitions [([], ⟨" B { () u; }".toList, ⟨['B'], ["() u".toList]⟩⟩)] [],
        .parameters " A x".toList,
        .definitions [([' '], ⟨" A { B[2] b; }".toList, ⟨['A'], ["B[2] b".toList]⟩⟩)] ['\n']] := by
    refine ⟨rfl, ?_, ?_⟩
    · rw [hin]
      exact .swap _ _ _
    · decide
  have hboth := structs_are_named_tuples htake hparse hwords
  rw [← hspelled]
  exact ⟨hparse, hboth.1 hparts, hboth.2 _ hregrouped⟩

/-- A struct with a field whose type has the keyword for a part. -/
def pointStruct : StructDef := ⟨['A'], ["a.struct x".toList]⟩

/-- What is left of declarations with this struct and a parameter that uses it. -/
def pointLefts : List (String × List Char) :=
  [("struct A { a.struct x; }", []), ("A y", "A y".toList)]

/-- The cuts of all that stands in these declarations. -/
def pointCuts : List (List Char × Cut) :=
  [("A y".toList, ⟨some ['y'], ['A'], []⟩),
    ("a.struct x".toList, ⟨some ['x'], "a.struct".toList, []⟩)]

/-- The texts in these declarations are cut. -/
theorem pointCuts_cut : ∀ q ∈ pointCuts, cutParam q.1 = .ok q.2 := by
  have hy : cutParam "A y".toList = .ok ⟨some ['y'], ['A'], []⟩ := by with_unfolding_all rfl
  have hx : cutParam "a.struct x".toList = .ok ⟨some ['x'], "a.struct".toList, []⟩ := by
    with_unfolding_all rfl
  unfold pointCuts
  rw [List.forall_mem_cons, List.forall_mem_singleton]
  exact ⟨hy, hx⟩

/-- The type with the keyword for a part is read: what stands in front of a point does not count. -/
theorem elementary_point : elementary "a.struct".toList = .ok (.uint 8) := by
  have hspecifier : TypeText.parse? "a.struct".toList = some (.named "uint8".toList []) := by rfl
  rw [elementary_of_parse? hspecifier, parse_of_parse? hspecifier]
  rfl

/-- These declarations are read. -/
theorem exists_parse_point : ∃ p, parse ["struct A { a.struct x; }", "A y"] = .ok [p] := by
  have htake : takeAllStructs [] ["struct A { a.struct x; }", "A y"] =
      .ok ([pointStruct], pointLefts) := by with_unfolding_all rfl
  have hown : (pointLefts.flatMap fun group => ownTexts group.2) = ["A y".toList] := rfl
  obtain ⟨hy, hx⟩ : cutParam "A y".toList = .ok ⟨some ['y'], ['A'], []⟩ ∧
      cutParam "a.struct x".toList = .ok ⟨some ['x'], "a.struct".toList, []⟩ :=
    ⟨pointCuts_cut _ List.mem_cons_self,
      pointCuts_cut _ (List.mem_cons_of_mem _ List.mem_cons_self)⟩
  have hfield : readParam [['A']] [] "a.struct x".toList =
      .ok ⟨some "x", (AbiType.uint 8).text, .uint 8, []⟩ := by
    have htuple : tupleFields? "a.struct".toList = none := rfl
    have hstruct : takeStruct? "a.struct".toList [] = none := rfl
    rw [readParam_eq, hx, bind_of_ok rfl]
    unfold readBase
    rw [htuple, hstruct, elementary_point]
    rfl
  obtain ⟨p, hread⟩ : ∃ p, readParam [] [pointStruct] "A y".toList = .ok p := by
    have htuple : tupleFields? ['A'] = none := rfl
    have hstruct : takeStruct? ['A'] [pointStruct] = some (pointStruct, []) := rfl
    rw [readParam_eq, hy, bind_of_ok rfl]
    unfold readBase
    rw [htuple, hstruct]
    dsimp only
    rw [pointStruct, readParams, hfield, readParams]
    exact ⟨_, rfl⟩
  refine ⟨p, ?_⟩
  rw [parse_of_takeAllStructs htake]
  refine readDeclarations_eq_ok_iff.mpr ?_
  rw [hown, readParams, hread, readParams]
  rfl

/-- Where a part of the name of a type is the keyword, the structs cannot always be written out: the
keyword counts in a parameter, but not in a field of a struct. -/
theorem not_forall_spelledOutTexts_read :
    ¬∀ (declarations : List String) (structs : List StructDef) (lefts : List (String × List Char))
      (params : List Param), takeAllStructs [] declarations = .ok (structs, lefts) →
      parse declarations = .ok params → NoKeywordNames structs lefts →
      parse ((spelledOutTexts structs lefts).map String.ofList) = .ok params := by
  intro h
  have htake : takeAllStructs [] ["struct A { a.struct x; }", "A y"] =
      .ok ([pointStruct], pointLefts) := by with_unfolding_all rfl
  obtain ⟨p, hparse⟩ := exists_parse_point
  have hwords : NoKeywordNames [pointStruct] pointLefts := by
    have hall : ∀ q ∈ pointCuts, q.2.name ≠ some keyword := by decide
    exact fun text hstands c hcut =>
      hall _ (StandsIn.exists_cut pointCuts_cut (by decide) (by decide) (by decide) hstands hcut)
  have hspelled : (spelledOutTexts [pointStruct] pointLefts).map String.ofList =
      ["", "(a.struct x) y"] := by with_unfolding_all rfl
  have hrefused : parse ["", "(a.struct x) y"] =
      .error (.malformedDeclaration "(a.struct x) y" Fault.structWithoutBody.message) := by
    with_unfolding_all rfl
  have hsame := h _ _ _ _ htake hparse hwords
  rw [hspelled, hrefused] at hsame
  cases hsame

end RollupInput.Declaration
