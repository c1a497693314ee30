import RollupInput.Declaration.Struct
import RollupInput.Proofs.Text.Blanks

/-!
# Texts without definitions

Nothing is taken out of a text in which the keyword of a definition does not stand as a whole
word. Whole words are the runs of identifier characters, so they can be told from the parts that
a text is put together from.
-/

namespace RollupInput.Declaration

/-- The maximal runs of identifier characters of a text, with empty ones between other characters
that follow each other. -/
def identifierRuns (cs : List Char) : List (List Char) :=
  Text.cutWhere (fun c => !Text.isIdentifierChar c) cs

/-- Whether the keyword of a definition is no whole word of a text. -/
def KeywordFree (cs : List Char) : Prop := keyword ∉ identifierRuns cs

/-- The keyword stands behind what is cut off in front of it, as a whole word. -/
theorem of_cutAtKeyword? {inWord : Bool} {cs before after : List Char}
    (h : cutAtKeyword? inWord cs = some (before, after)) :
    cs = before ++ (keyword ++ after) ∧ startsInWord after = false ∧
      (before = [] → inWord = false) ∧
      ∀ c ∈ before.getLast?, Text.isIdentifierChar c = false := by
  induction cs generalizing inWord before with
  | nil => cases h
  | cons c cs ih =>
    rw [cutAtKeyword?] at h
    split at h
    · rename_i hhere
      cases h
      rw [Bool.and_eq_true, Bool.and_eq_true, Bool.not_eq_true', Bool.not_eq_true',
        List.isPrefixOf_iff_prefix] at hhere
      obtain ⟨⟨hword, rest, hrest⟩, hafter⟩ := hhere
      refine ⟨?_, hafter, fun _ => hword, fun x hx => by cases hx⟩
      rw [← hrest, List.drop_left, List.nil_append]
    · obtain ⟨p, hp, hpair⟩ := Option.map_eq_some_iff.mp h
      cases hpair
      obtain ⟨hcs, hafter, hword, hlast⟩ := ih hp
      refine ⟨by rw [hcs]; rfl, hafter, (List.cons_ne_nil _ _).elim, ?_⟩
      intro x hx
      cases hfront : p.1 with
      | nil =>
        rw [hfront] at hx
        obtain rfl : c = x := Option.some.inj hx
        exact hword hfront
      | cons y front =>
        rw [hfront, List.getLast?_cons_cons, ← hfront] at hx
        exact hlast x hx

/-- The characters of the keyword may stand in identifiers. -/
theorem isIdentifierChar_of_mem_keyword :
    ∀ c ∈ keyword, Text.isIdentifierChar c = true :=
  List.all_eq_true.mp (by decide)

/-- The runs of a text with one more character in front. -/
theorem identifierRuns_cons (c : Char) {cs first : List Char} {others : List (List Char)}
    (hruns : identifierRuns cs = first :: others) :
    identifierRuns (c :: cs) =
      if Text.isIdentifierChar c then (c :: first) :: others else [] :: first :: others := by
  unfold identifierRuns at hruns ⊢
  rw [Text.cutWhere, hruns]
  cases Text.isIdentifierChar c <;> rfl

/-- A text starts with its first run, which no word continues. -/
theorem exists_first_append {cs first : List Char} {others : List (List Char)}
    (hruns : identifierRuns cs = first :: others) :
    ∃ rest, cs = first ++ rest ∧ startsInWord rest = false := by
  induction cs generalizing first others with
  | nil =>
    cases hruns
    exact ⟨[], rfl, rfl⟩
  | cons c cs ih =>
    obtain ⟨w, ws, hw⟩ : ∃ w ws, identifierRuns cs = w :: ws :=
      List.exists_cons_of_ne_nil (Text.cutWhere_ne_nil _ cs)
    rw [identifierRuns_cons c hw] at hruns
    cases hc : Text.isIdentifierChar c with
    | true =>
      rw [hc, if_pos rfl] at hruns
      cases hruns
      obtain ⟨rest, hcs, hrest⟩ := ih hw
      exact ⟨rest, by rw [hcs, List.cons_append], hrest⟩
    | false =>
      rw [hc, if_neg Bool.false_ne_true] at hruns
      cases hruns
      exact ⟨c :: cs, rfl, hc⟩

/-- A definition is found in front of a text exactly if the keyword is its first run. -/
theorem first_eq_keyword_iff {cs first : List Char} {others : List (List Char)}
    (hruns : identifierRuns cs = first :: others) :
    first = keyword ↔ keyword <+: cs ∧ startsInWord (cs.drop keyword.length) = false := by
  constructor
  · rintro rfl
    obtain ⟨rest, rfl, hrest⟩ := exists_first_append hruns
    rw [List.drop_left]
    exact ⟨List.prefix_append _ _, hrest⟩
  · rintro ⟨⟨rest, rfl⟩, hafter⟩
    have hkeyword : ∀ x ∈ keyword, (!Text.isIdentifierChar x) = false := by
      intro x hx
      rw [isIdentifierChar_of_mem_keyword x hx]
      rfl
    rw [List.drop_left] at hafter
    unfold identifierRuns at hruns
    cases rest with
    | nil =>
      rw [List.append_nil, Text.cutWhere_of_forall hkeyword] at hruns
      exact (List.cons.inj hruns).1.symm
    | cons x rest =>
      have hx : (!Text.isIdentifierChar x) = true := by
        rw [Bool.not_eq_true']
        exact hafter
      rw [Text.cutWhere_append_cons hx, Text.cutWhere_of_forall hkeyword,
        List.singleton_append] at hruns
      exact (List.cons.inj hruns).1.symm

/-- No cut is made exactly if the keyword is none of the runs, apart from a first one that continues
a word. -/
theorem cutAtKeyword?_eq_none_iff_of_runs {inWord : Bool} {cs first : List Char}
    {others : List (List Char)} (hruns : identifierRuns cs = first :: others) :
    cutAtKeyword? inWord cs = none ↔ (inWord = false → first ≠ keyword) ∧ keyword ∉ others := by
  induction cs generalizing inWord first others with
  | nil =>
    cases hruns
    exact iff_of_true rfl ⟨fun _ h => (by cases h), List.not_mem_nil⟩
  | cons c cs ih =>
    have hhere : (!inWord && keyword.isPrefixOf (c :: cs) &&
        !startsInWord ((c :: cs).drop keyword.length)) = true ↔ inWord = false ∧ first = keyword := by
      rw [Bool.and_eq_true, Bool.and_eq_true, Bool.not_eq_true', Bool.not_eq_true',
        List.isPrefixOf_iff_prefix, first_eq_keyword_iff hruns, and_assoc]
    have hrest : cutAtKeyword? (Text.isIdentifierChar c) cs = none ↔ keyword ∉ others := by
      obtain ⟨w, ws, hw⟩ : ∃ w ws, identifierRuns cs = w :: ws :=
        List.exists_cons_of_ne_nil (Text.cutWhere_ne_nil _ cs)
      rw [identifierRuns_cons c hw] at hruns
      rw [ih hw]
      cases hc : Text.isIdentifierChar c with
      | true =>
        rw [hc, if_pos rfl] at hruns
        cases hruns
        exact and_iff_right fun h => by cases h
      | false =>
        rw [hc, if_neg Bool.false_ne_true] at hruns
        cases hruns
        rw [List.mem_cons, not_or, imp_iff_right rfl, ne_comm]
    rw [cutAtKeyword?, ← hrest]
    by_cases hfirst : inWord = false ∧ first = keyword
    · rw [if_pos (hhere.mpr hfirst)]
      exact iff_of_false (fun h => by cases h) fun h => h.1 hfirst.1 hfirst.2
    · rw [if_neg (mt hhere.mp hfirst), Option.map_eq_none_iff]
      exact (and_iff_right (not_and.mp hfirst)).symm

/-- No cut is made exactly in a text without the keyword. -/
theorem cutAtKeyword?_eq_none_iff {cs : List Char} :
    cutAtKeyword? false cs = none ↔ KeywordFree cs := by
  obtain ⟨first, others, hruns⟩ : ∃ w ws, identifierRuns cs = w :: ws :=
    List.exists_cons_of_ne_nil (Text.cutWhere_ne_nil _ cs)
  unfold KeywordFree
  rw [cutAtKeyword?_eq_none_iff_of_runs hruns, hruns, List.mem_cons, not_or, imp_iff_right rfl,
    ne_comm]

/-- No cut is made in a text without the keyword. -/
theorem cutAtKeyword?_of_keywordFree {cs : List Char} (h : KeywordFree cs) :
    cutAtKeyword? false cs = none :=
  cutAtKeyword?_eq_none_iff.mpr h

/-- Nothing is taken out of a text in which no keyword is found. -/
theorem takeStructs_of_cutAtKeyword? {cs : List Char} (h : cutAtKeyword? false cs = none)
    (known : List StructDef) : takeStructs known cs = .ok (known, cs) := by
  rw [takeStructs]
  split
  · rfl
  · rename_i hcut
    rw [h] at hcut
    cases hcut

/-- Nothing is taken out of a text without the keyword. -/
theorem takeStructs_of_keywordFree {cs : List Char} (h : KeywordFree cs) (known : List StructDef) :
    takeStructs known cs = .ok (known, cs) :=
  takeStructs_of_cutAtKeyword? (cutAtKeyword?_of_keywordFree h) known

namespace KeywordFree

/-- The keyword can only stand on one side of a character that no identifier holds. -/
theorem append_cons_iff {front back : List Char} {c : Char}
    (hc : Text.isIdentifierChar c = false) :
    KeywordFree (front ++ c :: back) ↔ KeywordFree front ∧ KeywordFree back := by
  have hcut : (!Text.isIdentifierChar c) = true := by
    rw [hc]
    rfl
  unfold KeywordFree identifierRuns
  rw [Text.cutWhere_append_cons hcut, List.mem_append, not_or]

/-- The empty text has no keyword. -/
theorem nil : KeywordFree [] := by
  unfold KeywordFree
  decide

/-- A character that no identifier holds may stand in front. -/
theorem cons {c : Char} {cs : List Char} (hc : Text.isIdentifierChar c = false)
    (hcs : KeywordFree cs) : KeywordFree (c :: cs) :=
  (@append_cons_iff [] cs c hc).mpr ⟨nil, hcs⟩

/-- A single run of identifier characters other than the keyword. -/
theorem of_run {cs : List Char} (h : ∀ c ∈ cs, Text.isIdentifierChar c = true)
    (hne : cs ≠ keyword) : KeywordFree cs := by
  have hcut : ∀ c ∈ cs, (!Text.isIdentifierChar c) = false := by
    intro c hc
    rw [h c hc]
    rfl
  unfold KeywordFree identifierRuns
  rw [Text.cutWhere_of_forall hcut, List.mem_singleton]
  exact fun heq => hne heq.symm

/-- The keyword can only stand in one of two texts of which the second does not continue a word. -/
theorem append_iff {front back : List Char} (hstart : startsInWord back = false) :
    KeywordFree (front ++ back) ↔ KeywordFree front ∧ KeywordFree back := by
  cases back with
  | nil => rw [List.append_nil, and_iff_left nil]
  | cons c back =>
    have hc : Text.isIdentifierChar c = false := hstart
    have hcons : KeywordFree (c :: back) ↔ KeywordFree back :=
      (@append_cons_iff [] back c hc).trans (and_iff_right nil)
    rw [append_cons_iff hc, hcons]

/-- Texts of which the second does not continue a word. -/
theorem append {front back : List Char} (hfront : KeywordFree front) (hback : KeywordFree back)
    (hstart : startsInWord back = false) : KeywordFree (front ++ back) :=
  (append_iff hstart).mpr ⟨hfront, hback⟩

/-- A gap may stand in front. -/
theorem gap_append {gap cs : List Char} (hgap : Text.IsGap gap) (hcs : KeywordFree cs) :
    KeywordFree (gap ++ cs) := by
  induction gap with
  | nil => exact hcs
  | cons c gap ih =>
    refine cons ?_ (ih fun x hx => hgap x (List.mem_cons_of_mem c hx))
    rw [Bool.eq_false_iff]
    intro hc
    have hblank := hgap c List.mem_cons_self
    rw [Text.isBlank_of_isIdentifierChar hc] at hblank
    cases hblank

end KeywordFree

/-- No word continues into a text that is empty or starts with a blank. -/
theorem startsInWord_of_endsWord {cs : List Char} (h : Text.EndsWord cs) :
    startsInWord cs = false := by
  cases cs with
  | nil => rfl
  | cons c cs =>
    have hblank : Text.isBlank c = true := h c rfl
    rw [Bool.eq_false_iff]
    intro hc
    have hidentifier : Text.isIdentifierChar c = true := hc
    rw [Text.isBlank_of_isIdentifierChar hidentifier] at hblank
    cases hblank

/-- A gap has no keyword, and no word continues into it. -/
theorem keywordFree_of_isGap {gap : List Char} (h : Text.IsGap gap) :
    KeywordFree gap ∧ startsInWord gap = false := by
  refine ⟨?_, startsInWord_of_endsWord fun c hc => h c (List.mem_of_mem_head? hc)⟩
  have hfree := KeywordFree.gap_append h .nil
  rwa [List.append_nil] at hfree

/-- Texts with commas between them have no keyword exactly if none of them has one. -/
theorem keywordFree_join_iff {texts : List (List Char)} :
    KeywordFree (Text.join [','] texts) ↔ ∀ text ∈ texts, KeywordFree text := by
  induction texts with
  | nil => exact iff_of_true .nil (List.forall_mem_nil _)
  | cons first rest ih =>
    cases rest with
    | nil => exact List.forall_mem_singleton.symm
    | cons second rest =>
      rw [List.forall_mem_cons, ← ih]
      exact KeywordFree.append_cons_iff rfl

end RollupInput.Declaration
