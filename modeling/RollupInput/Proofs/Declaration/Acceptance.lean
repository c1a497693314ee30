import RollupInput.Proofs.Declaration.Elementary

/-!
# Written declarations are accepted

Declarations of written parameters are read as exactly the parameters that are written, in order,
however they are laid out and however they are divided into declarations. A declaration in which
the name of an elementary type is unknown is refused.
-/

namespace RollupInput.Declaration

open Abi

/-- A tuple has no keyword if there is none between its parentheses. -/
theorem keywordFree_tupleText {marked : Bool} {inner : List Char} (h : KeywordFree inner) :
    KeywordFree (tupleText marked inner) := by
  have hword : KeywordFree (if marked then ['t', 'u', 'p', 'l', 'e'] else []) := by
    cases marked with
    | true => exact .of_run isIdentifierChar_of_mem_tuple (by decide)
    | false => exact .nil
  exact (KeywordFree.append_cons_iff rfl).mpr
    ⟨hword, (KeywordFree.append_cons_iff rfl).mpr ⟨h, .nil⟩⟩

mutual

/-- A written parameter has no keyword if no name of a type in it has one. -/
theorem Written.keywordFree_text (w : Written) (h : w.IsLaidOut)
    (hnames : ∀ n ∈ w.typeNames, KeywordFree n) : KeywordFree w.text := by
  cases w with
  | elementary type around =>
    rw [Written.IsLaidOut] at h
    rw [Written.text]
    exact around.keywordFree_text h (hnames type List.mem_cons_self)
  | emptyTuple marked gap around =>
    rw [Written.IsLaidOut] at h
    rw [Written.text]
    exact around.keywordFree_text h.2 (keywordFree_tupleText (keywordFree_of_isGap h.1).1)
  | tuple marked fields around =>
    rw [Written.IsLaidOut] at h
    rw [Written.typeNames] at hnames
    rw [Written.text]
    exact around.keywordFree_text h.2.2
      (keywordFree_tupleText (keywordFree_join_texts fields h.2.1 hnames))

/-- The same for written parameters with commas between them. -/
theorem keywordFree_join_texts (ws : List Written) (h : AreLaidOut ws)
    (hnames : ∀ n ∈ typeNamesOf ws, KeywordFree n) :
    KeywordFree (Text.join [','] (texts ws)) := by
  match ws with
  | [] => exact .nil
  | [w] =>
    rw [AreLaidOut] at h
    rw [typeNamesOf] at hnames
    exact Written.keywordFree_text w h.1 fun n hn => hnames n (List.mem_append_left _ hn)
  | w :: v :: rest =>
    rw [AreLaidOut] at h
    rw [typeNamesOf] at hnames
    have hw := Written.keywordFree_text w h.1 fun n hn => hnames n (List.mem_append_left _ hn)
    have hrest := keywordFree_join_texts (v :: rest) h.2 fun n hn =>
      hnames n (List.mem_append_right _ hn)
    rw [texts, texts, Text.join, List.singleton_append, ← texts]
    exact (KeywordFree.append_cons_iff rfl).mpr ⟨hw, hrest⟩

end

/-- Parameters of two lists behind each other. -/
theorem params?_append (typeOf : List Char → Option AbiType) (ws vs : List Written) :
    params? typeOf (ws ++ vs) =
      (params? typeOf ws).bind fun ps => (params? typeOf vs).map (ps ++ ·) := by
  induction ws with
  | nil =>
    rw [List.nil_append, params?, Option.bind_some]
    cases params? typeOf vs <;> rfl
  | cons w rest ih =>
    rw [List.cons_append, params?, params?, ih]
    cases w.param? typeOf with
    | none => rfl
    | some p =>
      cases params? typeOf rest with
      | none => rfl
      | some ps =>
        cases params? typeOf vs with
        | none => rfl
        | some qs => rfl

variable {groups : List (List Written)}

/-- Nothing is taken out of declarations in which no keyword is found. -/
theorem takeAllStructs_of_cutAtKeyword? {declarations : List String}
    (h : ∀ s ∈ declarations, cutAtKeyword? false s.toList = none) (known : List StructDef) :
    takeAllStructs known declarations = .ok (known, declarations.map fun s => (s, s.toList)) := by
  induction declarations with
  | nil => rfl
  | cons s rest ih =>
    obtain ⟨hs, hrest⟩ := List.forall_mem_cons.mp h
    rw [takeAllStructs, takeStructs_of_cutAtKeyword? hs]
    dsimp only
    rw [ih hrest]
    rfl

/-- Nothing is taken out of declarations of written parameters. -/
theorem takeAllStructs_declarations (hlaid : ∀ ws ∈ groups, AreLaidOut ws)
    (hnames : ∀ ws ∈ groups, ∀ n ∈ typeNamesOf ws, KeywordFree n) :
    takeAllStructs [] (groups.map declaration) =
      .ok ([], groups.map fun ws => (declaration ws, Text.join [','] (texts ws))) := by
  have htext (ws : List Written) : (declaration ws).toList = Text.join [','] (texts ws) :=
    String.toList_ofList
  rw [takeAllStructs_of_cutAtKeyword?, List.map_map]
  · simp only [Function.comp_def, htext]
  · refine List.forall_mem_map.mpr fun ws hws => ?_
    rw [htext]
    exact cutAtKeyword?_of_keywordFree (keywordFree_join_texts ws (hlaid ws hws) (hnames ws hws))

/-- Declarations of written parameters are read as the parameters. -/
theorem readDeclarations_declarations (hne : ∀ ws ∈ groups, ws ≠ [])
    (hlaid : ∀ ws ∈ groups, AreLaidOut ws)
    (hnames : ∀ ws ∈ groups, ∀ n ∈ typeNamesOf ws, IsTypeName n) :
    (readDeclarations [] (groups.map fun ws =>
      (declaration ws, Text.join [','] (texts ws)))).toOption =
      params? (fun n => (elementary n).toOption) groups.flatten := by
  induction groups with
  | nil =>
    rw [List.flatten_nil, params?]
    rfl
  | cons ws rest ih =>
    have hrest := ih (fun vs hvs => hne vs (List.mem_cons_of_mem ws hvs))
      (fun vs hvs => hlaid vs (List.mem_cons_of_mem ws hvs))
      fun vs hvs => hnames vs (List.mem_cons_of_mem ws hvs)
    have hws := hlaid ws List.mem_cons_self
    have hnames' := hnames ws List.mem_cons_self
    have hempty : ¬(Text.trim (Text.join [','] (texts ws))).isEmpty = true := by
      rw [List.isEmpty_iff]
      exact trim_texts_ne_nil (hne ws List.mem_cons_self) hws hnames'
    have hread := toOption_outcomes ws
    rw [← readParams_texts ws hws hnames'] at hread
    rw [List.flatten_cons, params?_append, List.map_cons, readDeclarations, if_neg hempty,
      cutAtSeparators_texts (hne ws List.mem_cons_self) hws hnames', ← hread, ← hrest]
    cases readParams [] [] (texts ws) with
    | error e => rfl
    | ok ps =>
      dsimp only
      rw [toOption_map]
      rfl

/-- Declarations of written parameters are accepted exactly if all names of elementary types in
them are known, and then they are read as the parameters that are written. -/
theorem toOption_parse (hne : ∀ ws ∈ groups, ws ≠ []) (hlaid : ∀ ws ∈ groups, AreLaidOut ws)
    (hnames : ∀ ws ∈ groups, ∀ n ∈ typeNamesOf ws, IsTypeName n ∧ KeywordFree n) :
    (parse (groups.map declaration)).toOption =
      params? (fun n => (elementary n).toOption) groups.flatten := by
  have hstructs := takeAllStructs_declarations hlaid fun ws hws n hn => (hnames ws hws n hn).2
  unfold parse
  rw [hstructs]
  exact readDeclarations_declarations hne hlaid fun ws hws n hn => (hnames ws hws n hn).1

/-- Declarations of written parameters whose types are all known are read as the parameters. -/
theorem toOption_parse_of_known {params : List Param} (hne : ∀ ws ∈ groups, ws ≠ [])
    (hlaid : ∀ ws ∈ groups, AreLaidOut ws)
    (hparams : params? elementaryType? groups.flatten = some params) :
    (parse (groups.map declaration)).toOption = some params := by
  have hknown : ∀ ws ∈ groups, ∀ n ∈ typeNamesOf ws, ∃ t, elementaryType? n = some t := by
    intro ws hws n hn
    rw [typeNamesOf_eq, List.mem_flatMap] at hn
    obtain ⟨w, hw, hn⟩ := hn
    refine Option.isSome_iff_exists.mp (isSome_typeNamesOf groups.flatten hparams n ?_)
    rw [typeNamesOf_eq]
    exact List.mem_flatMap.mpr ⟨w, List.mem_flatten.mpr ⟨ws, hws, hw⟩, hn⟩
  have hread := toOption_parse hne hlaid fun ws hws n hn =>
    let ⟨_, ht⟩ := hknown ws hws n hn
    (elementary_of_elementaryType? ht).2
  rw [hread]
  exact params?_mono (fun n t ht => (elementary_of_elementaryType? ht).1) groups.flatten hparams

/-- Every list of written parameters is accepted and read as exactly the parameters that are
written: with their names, their types, their fields and their order, however they are laid out
and in whatever way they are divided into declarations that are not empty. -/
theorem parse_declarations_of_written {params : List Param} (hne : ∀ ws ∈ groups, ws ≠ [])
    (hlaid : ∀ ws ∈ groups, AreLaidOut ws)
    (hparams : params? elementaryType? groups.flatten = some params) :
    parse (groups.map declaration) = .ok params :=
  eq_ok_of_toOption (toOption_parse_of_known hne hlaid hparams)

/-- A word with one blank in front of it. -/
def spaced (word : String) : WrittenWord := ⟨[' '], word.toList⟩

/-- Two declarations: a marked tuple with a nested tuple of no fields and with suffixes, and then
an elementary type with modifiers and blanks of several kinds. -/
def sampleGroups : List (List Written) :=
  [[.tuple true
      [.elementary "uint".toList ⟨[' '], [], [], some (spaced "id"), ['\t']⟩,
        .emptyTuple false [' ', ' '] ⟨[], [⟨[' '], some 3, []⟩], [], none, [' ']⟩]
      ⟨[], [⟨[], none, []⟩, ⟨[], some 2, [' ']⟩], [spaced "memory"], some (spaced "items"), ['\n']⟩,
    .elementary "address".toList ⟨[' '], [], [], none, []⟩],
    [.elementary "bytes7".toList
      ⟨[' '], [], [spaced "indexed", spaced "calldata"], some (spaced "tag"), []⟩]]

/-- The parameters of the sample declarations. -/
def sampleParams : List Param :=
  let pair : AbiType := .tuple [.uint 256, .fixedArray (.tuple []) 3]
  let items : AbiType := .fixedArray (.array pair) 2
  let empty : AbiType := .fixedArray (.tuple []) 3
  [⟨some "items", items.text, items,
      [⟨some "id", AbiType.text (.uint 256), .uint 256, []⟩, ⟨none, empty.text, empty, []⟩]⟩,
    ⟨none, AbiType.text .address, .address, []⟩,
    ⟨some "tag", AbiType.text (.fixedBytes 7), .fixedBytes 7, []⟩]

/-- The sample declarations are read. -/
theorem sampleGroups_read : (∀ ws ∈ sampleGroups, ws ≠ []) ∧
    (∀ ws ∈ sampleGroups, AreLaidOut ws) ∧
    params? elementaryType? sampleGroups.flatten = some sampleParams ∧
    sampleGroups.map declaration =
      ["tuple( uint id\t,(  )[ 3] )[][2 ] memory items\n, address", " bytes7 indexed calldata tag"] ∧
    parse (sampleGroups.map declaration) = .ok sampleParams := by
  have hne : ∀ ws ∈ sampleGroups, ws ≠ [] := by simp [sampleGroups]
  have hlaid : ∀ ws ∈ sampleGroups, AreLaidOut ws := by decide +kernel
  have hparams : params? elementaryType? sampleGroups.flatten = some sampleParams := by rfl
  exact ⟨hne, hlaid, hparams, by rfl, parse_declarations_of_written hne hlaid hparams⟩

end RollupInput.Declaration
