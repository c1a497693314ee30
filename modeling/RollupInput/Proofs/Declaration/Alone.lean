import RollupInput.Proofs.Declaration.Acceptance
import RollupInput.Proofs.Declaration.Inversion

/-!
# Declarations of one parameter

A declaration that is read as one parameter and defines no struct is not cut anywhere: neither at a
keyword nor at a comma. So it is read as the same parameter without the blanks around it, and among
other declarations of this kind.
-/

namespace RollupInput.Declaration

open Abi

/-- Whether a text is read as one parameter without being cut. -/
structure ReadsAlone (cs : List Char) (p : Param) : Prop where
  /-- No struct definition starts in it. -/
  keywordless : cutAtKeyword? false cs = none
  /-- It is not blank. -/
  nonblank : Text.trim cs ≠ []
  /-- It is not cut at commas. -/
  uncut : cutAtSeparators ',' cs = [cs]
  /-- It is read as the parameter. -/
  read : readParam [] [] cs = .ok p

/-- Structs that are known stay known. -/
theorem length_known_le {known structs : List StructDef} {cs left : List Char}
    (h : takeStructs known cs = .ok (structs, left)) : known.length ≤ structs.length := by
  fun_induction takeStructs known cs generalizing left with
  | case1 known cs hcut =>
    cases h
    exact Nat.le_refl _
  | case2 => cases h
  | case3 => cases h
  | case4 known cs before after hcut d rest hread hnew ih =>
    obtain ⟨taken, htaken, hstructs⟩ := ok_of_map h
    cases hstructs
    have hmore := ih htaken
    rw [List.length_cons] at hmore
    omega

/-- A text out of which no struct is taken has no keyword, and all of it is left. -/
theorem of_takeStructs_nil {cs left : List Char} (h : takeStructs [] cs = .ok ([], left)) :
    cutAtKeyword? false cs = none ∧ left = cs := by
  rw [takeStructs] at h
  split at h
  · rename_i hcut
    cases h
    exact ⟨hcut, rfl⟩
  · split at h
    · cases h
    · split at h
      · cases h
      · obtain ⟨taken, htaken, hstructs⟩ := ok_of_map h
        have hle := length_known_le htaken
        rw [(Prod.mk.inj hstructs).1, List.length_singleton, List.length_nil] at hle
        omega

/-- Parts that come to one when a character is put on the first are one. -/
theorem eq_singleton_of_onFirst {c : Char} {cs : List Char} {parts : List (List Char)}
    (hne : parts ≠ []) (h : onFirst c parts = [c :: cs]) : parts = [cs] := by
  cases parts with
  | nil => exact absurd rfl hne
  | cons part rest =>
    obtain ⟨hpart, rfl⟩ := List.cons.inj h
    rw [(List.cons.inj hpart).2]

/-- A character either stands on the first part of what follows it, at the depth behind it, or is a
separator, whatever follows. -/
theorem cutFrom_cons (separator : Char) (depth : Int) (c : Char) :
    (∃ behind, ∀ cs, cutFrom separator depth (c :: cs) = onFirst c (cutFrom separator behind cs)) ∨
      ∀ cs, cutFrom separator depth (c :: cs) = [] :: cutFrom separator depth cs := by
  by_cases hcut : IsPlain c ∧ c = separator ∧ depth = 0
  · exact .inr fun cs => by rw [cutFrom_cons_eq_ite, if_pos hcut, hcut.2.2]
  · exact .inl ⟨depth + bracketStep c, fun cs => by rw [cutFrom_cons_eq_ite, if_neg hcut]⟩

/-- A text that is cut into one part is that part. -/
theorem cutFrom_of_length {separator : Char} {depth : Int} {cs : List Char}
    (h : (cutFrom separator depth cs).length = 1) : cutFrom separator depth cs = [cs] := by
  induction cs generalizing depth with
  | nil => rfl
  | cons c cs ih =>
    obtain ⟨behind, hcut⟩ | hcut := cutFrom_cons separator depth c
    · rw [hcut] at h ⊢
      cases hparts : cutFrom separator behind cs with
      | nil => exact absurd hparts (cutFrom_ne_nil _ _ _)
      | cons part rest =>
        rw [hparts] at h
        have hone := ih (by rwa [hparts])
        rw [hparts] at hone
        rw [hone]
        rfl
    · rw [hcut, List.length_cons, Nat.succ_inj] at h
      exact absurd (List.length_eq_zero_iff.mp h) (cutFrom_ne_nil _ _ _)

/-- A text that is not cut is not cut in front of what ends it. -/
theorem cutFrom_of_append {separator : Char} {depth : Int} {cs rest : List Char}
    (h : cutFrom separator depth (cs ++ rest) = [cs ++ rest]) :
    cutFrom separator depth cs = [cs] := by
  induction cs generalizing depth with
  | nil => rfl
  | cons c cs ih =>
    rw [List.cons_append] at h
    obtain ⟨behind, hcut⟩ | hcut := cutFrom_cons separator depth c
    · rw [hcut] at h ⊢
      rw [ih (eq_singleton_of_onFirst (cutFrom_ne_nil _ _ _) h)]
      rfl
    · rw [hcut] at h
      cases (List.cons.inj h).1

/-- A text that is not cut at commas is not cut without the blanks around it. -/
theorem cutAtSeparators_trim {cs : List Char} (h : cutAtSeparators ',' cs = [cs]) :
    cutAtSeparators ',' (Text.trim cs) = [Text.trim cs] := by
  obtain ⟨before, after, hbefore, -, hcs⟩ := Text.exists_gaps cs
  have hnested : Nested (· ≠ ',') before :=
    .of_forall (fun c hc => (isPlain_of_isBlank (hbefore c hc)).1)
      fun c hc => (isPlain_of_isBlank (hbefore c hc)).2.1
  have hnone := hnested.not_hasOuter ⟨rfl, rfl⟩ (Int.le_refl 0) fun _ _ hc => hc
  have hcut := cutFrom_append hnone (Text.trim cs ++ after)
  rw [← hcs, hnested.depthOf_eq, Int.add_zero] at hcut
  have hwhole : ontoFirst before (cutAtSeparators ',' (Text.trim cs ++ after)) = [cs] :=
    hcut.symm.trans h
  refine @cutFrom_of_append ',' 0 _ after ?_
  cases hparts : cutAtSeparators ',' (Text.trim cs ++ after) with
  | nil => exact absurd hparts (cutFrom_ne_nil _ _ _)
  | cons part rest =>
    rw [hparts, ontoFirst_cons] at hwhole
    obtain ⟨hpart, rfl⟩ := List.cons.inj hwhole
    rw [List.append_cancel_left (hpart.trans hcs)] at hparts
    exact hparts

/-- No keyword comes to stand at the start of a text when blanks in front of it are taken off. -/
theorem cutAtKeyword?_of_gap_append {gap cs : List Char} (hgap : Text.IsGap gap)
    (h : cutAtKeyword? false (gap ++ cs) = none) : cutAtKeyword? false cs = none := by
  induction gap with
  | nil => exact h
  | cons c gap ih =>
    have hc : Text.isIdentifierChar c = false := by
      rw [Bool.eq_false_iff]
      intro hchar
      have hblank := hgap c List.mem_cons_self
      rw [Text.isBlank_of_isIdentifierChar hchar] at hblank
      cases hblank
    rw [List.cons_append, cutAtKeyword?, hc] at h
    split at h
    · cases h
    · exact ih (fun x hx => hgap x (List.mem_cons_of_mem c hx)) (Option.map_eq_none_iff.mp h)

/-- Blanks behind a text do not change whether a word continues into it. -/
theorem startsInWord_append_gap {gap : List Char} (hgap : Text.IsGap gap) (cs : List Char) :
    startsInWord (cs ++ gap) = startsInWord cs := by
  cases cs with
  | nil => exact (keywordFree_of_isGap hgap).2
  | cons c cs => rfl

/-- No keyword comes to stand at the end of a text when blanks behind it are taken off. -/
theorem cutAtKeyword?_of_append_gap {inWord : Bool} {cs gap : List Char} (hgap : Text.IsGap gap)
    (h : cutAtKeyword? inWord (cs ++ gap) = none) : cutAtKeyword? inWord cs = none := by
  induction cs generalizing inWord with
  | nil => rfl
  | cons c cs ih =>
    -- A keyword that ends the text ends before the blanks as well, because no word goes on in them.
    have hkeep : (!inWord && keyword.isPrefixOf (c :: cs) &&
        !startsInWord ((c :: cs).drop keyword.length)) = true →
        (!inWord && keyword.isPrefixOf (c :: (cs ++ gap)) &&
          !startsInWord ((c :: (cs ++ gap)).drop keyword.length)) = true := by
      rw [Bool.and_eq_true, Bool.and_eq_true, Bool.and_eq_true, Bool.and_eq_true,
        List.isPrefixOf_iff_prefix, List.isPrefixOf_iff_prefix, ← List.cons_append]
      rintro ⟨⟨hin, hprefix⟩, hafter⟩
      refine ⟨⟨hin, hprefix.trans (List.prefix_append _ _)⟩, ?_⟩
      rwa [List.drop_append_of_le_length hprefix.length_le, startsInWord_append_gap hgap]
    rw [List.cons_append, cutAtKeyword?] at h
    rw [cutAtKeyword?]
    split at h
    · cases h
    · rename_i hhere
      rw [ih (Option.map_eq_none_iff.mp h), if_neg fun hc => hhere (hkeep hc)]
      rfl

/-- Reading a parameter takes no notice of the blanks around its text. -/
theorem readParam_trim (opened : List (List Char)) (available : List StructDef) (cs : List Char) :
    readParam opened available (Text.trim cs) = readParam opened available cs := by
  have htrim := Text.trim_trim cs
  conv_lhs => rw [readParam]
  conv_rhs => rw [readParam]
  generalize Text.trim (Text.trim cs) = text at htrim ⊢
  rw [htrim]

/-- A text that is read alone is read alone without the blanks around it. -/
theorem ReadsAlone.trim {cs : List Char} {p : Param} (h : ReadsAlone cs p) :
    ReadsAlone (Text.trim cs) p where
  keywordless := by
    obtain ⟨before, after, hbefore, hafter, hcs⟩ := Text.exists_gaps cs
    have hkeyword := h.keywordless
    rw [hcs] at hkeyword
    exact cutAtKeyword?_of_append_gap hafter (cutAtKeyword?_of_gap_append hbefore hkeyword)
  nonblank := by
    rw [Text.trim_trim]
    exact h.nonblank
  uncut := cutAtSeparators_trim h.uncut
  read := by
    rw [readParam_trim]
    exact h.read

/-- A declaration that defines no struct and is read as one parameter is read alone. -/
theorem readsAlone_of_parse {text : String} {left : List Char} {p : Param}
    (hstructs : takeStructs [] text.toList = .ok ([], left)) (hparse : parse [text] = .ok [p]) :
    ReadsAlone text.toList p := by
  obtain ⟨hkeyword, rfl⟩ := of_takeStructs_nil hstructs
  have hread : readDeclarations [] [(text, text.toList)] = .ok [p] := by
    unfold parse at hparse
    rw [takeAllStructs, hstructs] at hparse
    exact hparse
  rw [readDeclarations] at hread
  split at hread
  · cases hread
  · rename_i own hown
    have hsole : own = [p] := by
      obtain ⟨more, hmore, happend⟩ := ok_of_map hread
      cases hmore
      rwa [List.append_nil] at happend
    split at hown
    · cases hown
      cases hsole
    · rename_i hblank
      rw [hsole] at hown
      have hall := forall₂_of_readParams hown
      have huncut : cutAtSeparators ',' text.toList = [text.toList] :=
        cutFrom_of_length hall.length_eq
      rw [huncut] at hall
      cases hall with
      | cons hp _ =>
        exact ⟨hkeyword, fun hc => hblank (List.isEmpty_iff.mpr hc), huncut, hp⟩

/-- Declarations that are read alone are read one by one. -/
theorem parse_of_readsAlone {texts : List String} {ps : List Param}
    (h : List.Forall₂ (fun text p => ReadsAlone text.toList p) texts ps) : parse texts = .ok ps := by
  have htake : takeAllStructs [] texts = .ok ([], texts.map fun text => (text, text.toList)) := by
    induction h with
    | nil => rfl
    | cons hone _ ih =>
      rw [takeAllStructs, takeStructs_of_cutAtKeyword? hone.keywordless]
      dsimp only
      rw [ih]
      rfl
  have hread : readDeclarations [] (texts.map fun text => (text, text.toList)) = .ok ps := by
    clear htake
    induction h with
    | nil => rfl
    | @cons text p texts ps hone _ ih =>
      have hblank : ¬(Text.trim text.toList).isEmpty = true := fun hc =>
        hone.nonblank (List.isEmpty_iff.mp hc)
      have hown : readParams [] [] [text.toList] = .ok [p] := by
        rw [readParams, hone.read, readParams]
        rfl
      rw [List.map_cons, readDeclarations, if_neg hblank, hone.uncut, hown]
      dsimp only
      rw [ih]
      rfl
  unfold parse
  rw [htake]
  exact hread

/-- A declaration that is read alone is not blank. -/
theorem nonBlank?_of_readsAlone {text : String} {p : Param} (h : ReadsAlone text.toList p) :
    Text.nonBlank? text = some (Text.trimmed text) := by
  have hne : ¬(Text.trimmed text).isEmpty = true := by
    simpa [Text.trimmed] using h.nonblank
  unfold Text.nonBlank?
  dsimp only
  rw [if_neg hne]

/-- A declaration that is read alone is read without the blanks around it. -/
theorem parse_trimmed_of_readsAlone {text : String} {p : Param} (h : ReadsAlone text.toList p) :
    parse [Text.trimmed text] = .ok [p] := by
  refine parse_of_readsAlone (.cons ?_ .nil)
  rw [Text.trimmed, String.toList_ofList]
  exact h.trim

end RollupInput.Declaration
