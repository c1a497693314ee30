import RollupInput.Proofs.Declaration.Acceptance

/-!
# Declarations of specifier names

The names of types that an interface writes are specifiers without suffixes: identifiers, or an
identifier and a point with another identifier or nothing behind it. A declaration whose types have
such names is read as if it had no structs, even if one of the names is the keyword of structs:
without a brace the keyword is a fault, and it is the name of no type either.
-/

namespace RollupInput.Declaration

open Abi

/-- A specifier without suffixes ends where its suffixes would start. -/
theorem eq_of_readSuffixes? {steps : Nat} {cs rest : List Char}
    (h : TypeText.readSuffixes? steps cs = some ([], rest)) : rest = cs := by
  cases steps with
  | zero => cases h
  | succ steps =>
    unfold TypeText.readSuffixes? at h
    split at h
    · next more =>
      obtain ⟨s, -, h⟩ := Option.bind_eq_some_iff.mp h
      obtain ⟨p, -, h⟩ := Option.map_eq_some_iff.mp h
      cases h
    · cases h
      rfl

/-- A specifier that is an identifier without suffixes is read as a name to its end. -/
theorem readName?_of_parse? {cs identifier : List Char}
    (h : TypeText.parse? cs = some (.named identifier [])) :
    TypeText.readName? cs = some (identifier, []) := by
  have hread : TypeText.read? (2 * cs.length + 1 + 1) (79 + 1) cs =
      some (.named identifier [], []) := by
    unfold TypeText.parse? at h
    split at h
    · next t heq =>
      cases h
      exact heq
    · cases h
  rw [TypeText.read?] at hread
  cases hopening : TypeText.opening? cs with
  | some rest =>
    rw [hopening] at hread
    obtain ⟨fields, -, hread⟩ := Option.bind_eq_some_iff.mp hread
    obtain ⟨s, -, hread⟩ := Option.map_eq_some_iff.mp hread
    cases hread
  | none =>
    rw [hopening] at hread
    obtain ⟨⟨name, rest⟩, hname, hread⟩ := Option.bind_eq_some_iff.mp hread
    obtain ⟨⟨suffixes, last⟩, hsuffixes, hread⟩ := Option.map_eq_some_iff.mp hread
    cases hread
    have hrest := eq_of_readSuffixes? hsuffixes
    dsimp only at hrest hname
    rw [hname, hrest]

/-- An identifier at the head of a text is not empty and made of the characters of identifiers. -/
theorem of_readIdentifier? {cs name rest : List Char}
    (h : TypeText.readIdentifier? cs = some (name, rest)) :
    cs = name ++ rest ∧ name ≠ [] ∧ ∀ c ∈ name, Text.isIdentifierChar c = true := by
  cases cs with
  | nil => cases h
  | cons c cs =>
    rw [TypeText.readIdentifier?] at h
    split at h
    · next hstart =>
      cases h
      have hfirst : Text.isIdentifierChar c = true := by
        unfold Text.isIdentifierChar
        rw [hstart, Bool.true_or]
      refine ⟨?_, List.cons_ne_nil _ _, ?_⟩
      · rw [List.cons_append, List.takeWhile_append_dropWhile]
      · refine List.forall_mem_cons.mpr ⟨hfirst, ?_⟩
        intro x hx
        exact List.mem_takeWhile_imp hx
    · cases h

/-- A name that is read to its end can be the name of a type, and is the identifier that it is
read as unless it has a point. -/
theorem isTypeName_of_readName? {cs identifier : List Char}
    (h : TypeText.readName? cs = some (identifier, [])) :
    IsTypeName cs ∧ ('.' ∉ cs → identifier = cs) := by
  obtain ⟨⟨name, rest⟩, hname, hread⟩ := Option.map_eq_some_iff.mp h
  obtain ⟨rfl, hne, hchars⟩ := of_readIdentifier? hname
  split at hread
  · next more heq =>
    obtain rfl : rest = '.' :: more := heq
    obtain ⟨-, hmore⟩ := Prod.mk.inj hread
    have hrest : ∀ c ∈ more, Text.isIdentifierChar c = true := by
      cases hidentifier : TypeText.readIdentifier? more with
      | none =>
        rw [hidentifier] at hmore
        obtain rfl : more = [] := hmore
        intro c hc
        cases hc
      | some p =>
        rw [hidentifier] at hmore
        obtain ⟨rfl, -, hmoreChars⟩ := of_readIdentifier? hidentifier
        have hlast : p.2 = [] := hmore
        rw [hlast, List.append_nil]
        exact hmoreChars
    refine ⟨⟨List.append_ne_nil_of_left_ne_nil hne _, ?_⟩, ?_⟩
    · intro c hc
      rcases List.mem_append.mp hc with hc | hc
      · exact .inl (hchars c hc)
      · rcases List.mem_cons.mp hc with rfl | hc
        · exact .inr rfl
        · exact .inl (hrest c hc)
    · intro hpoint
      exact absurd (List.mem_append_right _ List.mem_cons_self) hpoint
  · obtain ⟨rfl, hrest⟩ := Prod.mk.inj hread
    obtain rfl : rest = [] := hrest
    rw [List.append_nil]
    exact ⟨⟨hne, fun c hc => .inl (hchars c hc)⟩, fun _ => rfl⟩

/-- No identifier is the name of a tuple. -/
theorem ofName_ne_tuple (name : List Char) (fields : List AbiType) :
    AbiType.ofName name ≠ .ok (.tuple fields) := by
  have hite {c : Prop} [Decidable c] {x y : Except TypeFault AbiType} (hx : x ≠ .ok (.tuple fields))
      (hy : y ≠ .ok (.tuple fields)) : (if c then x else y) ≠ .ok (.tuple fields) := by
    split
    · exact hx
    · exact hy
  unfold AbiType.ofName
  iterate 7 refine hite (by rintro ⟨⟩) ?_
  cases Text.after? "bytes".toList name with
  | some size =>
    dsimp only
    cases Text.readDecimal? size with
    | some n => exact hite (by rintro ⟨⟩) (by rintro ⟨⟩)
    | none => rintro ⟨⟩
  | none =>
    dsimp only
    cases Text.after? "int".toList (if (name.head? == some 'u') = true then name.tail else name) with
    | some bits =>
      dsimp only
      cases Text.readDecimal? bits with
      | some n =>
        refine hite ?_ (by rintro ⟨⟩)
        cases name.head? == some 'u' <;> rintro ⟨⟩
      | none => rintro ⟨⟩
    | none => rintro ⟨⟩

/-- A specifier that is an identifier is read as a type like the identifier. -/
theorem parse_of_parse? {name identifier : List Char}
    (h : TypeText.parse? name = some (.named identifier [])) :
    AbiType.parse name = AbiType.ofName identifier := by
  rw [AbiType.parse, h]
  dsimp only [AbiType.ofText]
  cases AbiType.ofName identifier with
  | error e => rfl
  | ok t => rfl

/-- A specifier that is an identifier is read as an elementary type, and unknown for the cause for
which it is no type. -/
theorem elementary_of_parse? {name identifier : List Char}
    (h : TypeText.parse? name = some (.named identifier [])) :
    elementary name =
      (AbiType.parse name).mapError fun cause => .unknownType name (some cause) := by
  have hflat := ofName_ne_tuple identifier
  rw [elementary, parse_of_parse? h]
  cases hname : AbiType.ofName identifier with
  | error e => rfl
  | ok t =>
    rw [hname] at hflat
    cases t with
    | tuple fields => exact absurd rfl (hflat fields)
    | _ => rfl

/-- A specifier that is an identifier is the name of the type that the identifier names. -/
theorem toOption_elementary {name identifier : List Char}
    (h : TypeText.parse? name = some (.named identifier [])) :
    (elementary name).toOption = (AbiType.ofName identifier).toOption := by
  rw [elementary_of_parse? h, parse_of_parse? h]
  cases AbiType.ofName identifier with
  | error e => rfl
  | ok t => rfl

/-- No brace stands in a nested text. -/
theorem notMem_brace_of_nested {p : Char → Prop} {cs : List Char} (h : Nested p cs) :
    '\x7b' ∉ cs := by
  induction h with
  | nil => exact List.not_mem_nil
  | plain hc _ _ ih =>
    rw [List.mem_cons, not_or]
    refine ⟨?_, ih⟩
    rintro rfl
    cases hc.1
  | group hlr _ _ ihinner ih =>
    rw [List.mem_cons, List.mem_append, List.mem_cons, not_or, not_or, not_or]
    rcases hlr with ⟨rfl, rfl⟩ | ⟨rfl, rfl⟩
    · exact ⟨by decide, ihinner, by decide, ih⟩
    · exact ⟨by decide, ihinner, by decide, ih⟩

/-- Without braces a keyword is a fault, and without a keyword nothing is taken out. -/
theorem takeStructs_of_notMem_brace {cs : List Char} (h : '\x7b' ∉ cs) (known : List StructDef) :
    takeStructs known cs = .ok (known, cs) ∨ ∃ fault, takeStructs known cs = .error fault := by
  rw [takeStructs]
  split
  · exact .inl rfl
  · next before after hcut =>
    have hbody : after.dropWhile (· != '\x7b') = [] := by
      rw [List.dropWhile_eq_nil_iff]
      intro c hc
      rw [bne_iff_ne]
      rintro rfl
      refine h ?_
      rw [(of_cutAtKeyword? hcut).1]
      exact List.mem_append_right _ (List.mem_append_right _ hc)
    have hread : readStruct after = .error .structWithoutBody := by
      unfold readStruct
      dsimp only
      rw [hbody]
    split
    · next e _ => exact .inr ⟨e, rfl⟩
    · next d rest heq =>
      rw [hread] at heq
      cases heq

/-- Whether a text is a specifier that is an identifier, and holds the keyword of structs at most by
itself. -/
structure IsSpecifierName (name : List Char) : Prop where
  /-- It is a specifier without suffixes. -/
  specifier : ∃ identifier, TypeText.parse? name = some (.named identifier [])
  /-- It is free of the keyword if it has a point. -/
  keywordFree : '.' ∈ name → KeywordFree name

/-- A specifier name can be the name of a type. -/
theorem IsSpecifierName.isTypeName {name : List Char} (h : IsSpecifierName name) :
    IsTypeName name := by
  obtain ⟨identifier, hparse⟩ := h.specifier
  exact (isTypeName_of_readName? (readName?_of_parse? hparse)).1

/-- A specifier name that is the name of a type is free of the keyword. -/
theorem IsSpecifierName.keywordFree_of_known {name : List Char} (h : IsSpecifierName name)
    {t : AbiType} (ht : (elementary name).toOption = some t) : KeywordFree name := by
  by_cases hpoint : '.' ∈ name
  · exact h.keywordFree hpoint
  · obtain ⟨identifier, hparse⟩ := h.specifier
    obtain ⟨hname, heq⟩ := isTypeName_of_readName? (readName?_of_parse? hparse)
    obtain rfl := heq hpoint
    rw [toOption_elementary hparse] at ht
    refine .of_run (fun c hc => ?_) ?_
    · rcases hname.2 c hc with hchar | rfl
      · exact hchar
      · exact absurd hc hpoint
    · rintro rfl
      cases ht

/-- A declaration whose types have specifier names is accepted exactly if the names are known, and
then it is read as the parameters that are written. -/
theorem toOption_parse_of_specifiers {ws : List Written} (hne : ws ≠ []) (hlaid : AreLaidOut ws)
    (hnames : ∀ n ∈ typeNamesOf ws, IsSpecifierName n) :
    (parse [declaration ws]).toOption = params? (fun n => (elementary n).toOption) ws := by
  have htypes : ∀ n ∈ typeNamesOf ws, IsTypeName n := fun n hn => (hnames n hn).isTypeName
  cases hparams : params? (fun n => (elementary n).toOption) ws with
  | some params =>
    have hfree : ∀ n ∈ typeNamesOf ws, KeywordFree n := by
      intro n hn
      obtain ⟨t, ht⟩ := Option.isSome_iff_exists.mp (isSome_typeNamesOf ws hparams n hn)
      exact (hnames n hn).keywordFree_of_known ht
    have hgroups := @toOption_parse [ws] (List.forall_mem_singleton.mpr hne)
      (List.forall_mem_singleton.mpr hlaid)
      (List.forall_mem_singleton.mpr fun n hn => ⟨htypes n hn, hfree n hn⟩)
    rw [List.flatten_singleton, hparams] at hgroups
    exact hgroups
  | none =>
    have hbrace := notMem_brace_of_nested (nested_join (nested_texts ws hlaid htypes))
    have htext : (declaration ws).toList = Text.join [','] (texts ws) := String.toList_ofList
    unfold parse
    rw [takeAllStructs, htext]
    rcases takeStructs_of_notMem_brace hbrace [] with htake | ⟨fault, htake⟩
    · have hread := @readDeclarations_declarations [ws] (List.forall_mem_singleton.mpr hne)
        (List.forall_mem_singleton.mpr hlaid) (List.forall_mem_singleton.mpr htypes)
      rw [List.flatten_singleton, hparams] at hread
      rw [htake]
      exact hread
    · rw [htake]
      rfl

end RollupInput.Declaration
