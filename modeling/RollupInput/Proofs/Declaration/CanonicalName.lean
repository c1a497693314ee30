import RollupInput.Proofs.Abi.Success
import RollupInput.Proofs.Declaration.Alone
import RollupInput.Proofs.Declaration.Nameable

/-!
# Canonical names read back

The canonical name of a type is itself the text of a parameter, with the type and without names, and
stays one with a name behind it. So the types by which parameters are shown, and the listing of
parameters in messages, can be read as declarations. There is one exception: the name of a tuple of
one field has a comma behind the field, and what stands between that comma and the closing
parenthesis is read as a second field, which is refused for being empty.
-/

namespace RollupInput.Abi.AbiType

mutual

/-- Whether a tuple of exactly one field stands in a type. -/
def hasLoneField : AbiType → Bool
  | .array element => hasLoneField element
  | .fixedArray element _ => hasLoneField element
  | .tuple fields => fields.length == 1 || anyHasLoneField fields
  | _ => false

/-- Whether a tuple of exactly one field stands in one of some types. -/
def anyHasLoneField : List AbiType → Bool
  | [] => false
  | t :: rest => hasLoneField t || anyHasLoneField rest

end

mutual

/-- The fields of the innermost tuple of a type as parameters, none of them with a name. -/
def unnamedFields : AbiType → List Param
  | .array element => unnamedFields element
  | .fixedArray element _ => unnamedFields element
  | .tuple fields => unnamedParams fields
  | _ => []

/-- Types as parameters without names. -/
def unnamedParams : List AbiType → List Param
  | [] => []
  | t :: rest => ⟨none, t.text, t, unnamedFields t⟩ :: unnamedParams rest

end

/-- A type as a parameter without a name. -/
def unnamed (t : AbiType) : Param := ⟨none, t.text, t, t.unnamedFields⟩

/-- One of some types has a tuple of one field if one of them does. -/
theorem anyHasLoneField_eq (ts : List AbiType) : anyHasLoneField ts = ts.any hasLoneField := by
  induction ts with
  | nil => rfl
  | cons t rest ih => rw [anyHasLoneField, List.any_cons, ih]

/-- Types are parameters without names one by one. -/
theorem unnamedParams_eq (ts : List AbiType) : unnamedParams ts = ts.map unnamed := by
  induction ts with
  | nil => rfl
  | cons t rest ih => rw [unnamedParams, List.map_cons, ih, unnamed]

/-- Types as parameters have the types. -/
theorem map_type_unnamedParams (ts : List AbiType) : (unnamedParams ts).map Param.type = ts := by
  rw [unnamedParams_eq, List.map_map]
  exact List.map_id ts

/-- The names of some types are their names one by one. -/
theorem names_eq (ts : List AbiType) : names ts = ts.map name := by
  induction ts with
  | nil => rfl
  | cons t rest ih => rw [names, List.map_cons, ih]

end RollupInput.Abi.AbiType

namespace RollupInput.Declaration

open Abi

/-- What comes of the canonical name of a type with something around it: a parameter of the type, or
the fault of an empty field. -/
def readingOf (a : Surroundings) (t : AbiType) : Except Fault Param :=
  if t.hasLoneField then .error .emptyParameter else .ok (a.param t t.unnamedFields)

/-- A text that can stand in a list of parameters, and what it is read as. -/
structure Yields (text : List Char) (outcome : Except Fault Param) : Prop where
  /-- Its brackets pair up, and no comma stands outside of them. -/
  nested : Nested (· ≠ ',') text
  /-- It is not blank. -/
  nonblank : Text.trim text ≠ []
  /-- No definition starts in it. -/
  keywordFree : KeywordFree text
  /-- It is read with the outcome. -/
  read : readParam [] [] text = outcome

/-! ## Names -/

/-- A base with something around it is read by resolving the base. -/
theorem yields_of_isBase {a : Surroundings} (ha : a.IsLaidOut) {base : List Char}
    (hbase : IsBase base) (hfree : KeywordFree base) :
    Yields (a.text base) ((resolveBase base).map fun r => a.param r.1 r.2) where
  nested := a.nested_text ha hbase
  nonblank := a.trim_text_ne_nil ha hbase
  keywordFree := a.keywordFree_text ha hfree
  read := a.readParam_text ha hbase

/-- A tuple is resolved by reading the texts between its parentheses. -/
theorem resolveBase_tupleText (marked : Bool) (inner : List Char) :
    resolveBase (tupleText marked inner) =
      (readParams [] [] (ownTexts inner)).map fieldsAsTuple := by
  rw [← readBase_nil, readBase, tupleFields?_tupleText]

/-- Texts of which each is read as a parameter or as empty are read as the parameters, or as empty if
one of them is. -/
theorem readParams_map_eq {α : Type} {text : α → List Char} {lone : α → Bool} {param : α → Param}
    {xs : List α} (h : ∀ x ∈ xs, readParam [] [] (text x) =
      if lone x then .error .emptyParameter else .ok (param x)) :
    readParams [] [] (xs.map text) =
      if xs.any lone then .error .emptyParameter else .ok (xs.map param) := by
  induction xs with
  | nil =>
    rw [List.map_nil, readParams]
    rfl
  | cons x rest ih =>
    obtain ⟨hx, hrest⟩ := List.forall_mem_cons.mp h
    rw [List.map_cons, readParams, hx, ih hrest, List.any_cons, List.map_cons]
    cases lone x with
    | true => rfl
    | false =>
      rw [Bool.false_or, if_neg Bool.false_ne_true]
      cases rest.any lone <;> rfl

/-- The texts between the parentheses of the name of a tuple. Behind a single field there is an empty
one. -/
def nameTexts : List (List Char) → List (List Char)
  | [field] => [field, []]
  | fields => fields

/-- What holds of fields and of the empty text holds of the texts between the parentheses. -/
theorem forall_mem_nameTexts {P : List Char → Prop} {fields : List (List Char)} (hnil : P [])
    (h : ∀ field ∈ fields, P field) : ∀ text ∈ nameTexts fields, P text := by
  match fields, h with
  | [], h => exact h
  | [field], h =>
    exact List.forall_mem_cons.mpr ⟨h field List.mem_cons_self, List.forall_mem_singleton.mpr hnil⟩
  | first :: second :: rest, h => exact h

/-- The name of a tuple has commas between its texts. -/
theorem tupleName_eq (fields : List (List Char)) :
    AbiType.tupleName fields = tupleText false (Text.join [','] (nameTexts fields)) := by
  match fields with
  | [] => rfl
  | [field] =>
    rw [AbiType.tupleName, nameTexts, Text.join, Text.join, List.append_nil]
    unfold tupleText
    simp
  | first :: second :: rest => rfl

/-- An empty text is no parameter. -/
theorem readParam_nil : readParam [] [] [] = .error .emptyParameter := by
  rw [readParam]
  rfl

/-- The texts of a name are cut apart again. -/
theorem ownTexts_nameTexts {fields : List (List Char)}
    (h : ∀ field ∈ fields, Nested (· ≠ ',') field ∧ Text.trim field ≠ []) :
    ownTexts (Text.join [','] (nameTexts fields)) = nameTexts fields := by
  match fields, h with
  | [], _ => rfl
  | [field], h =>
    obtain ⟨hfield, -⟩ := List.forall_mem_singleton.mp h
    have hcomma : ',' ∈ Text.join [','] [field, []] :=
      List.mem_append_right _ List.mem_cons_self
    have hblank : ¬(Text.trim (Text.join [','] [field, []])).isEmpty = true := by
      rw [List.isEmpty_iff]
      intro hempty
      cases Text.isGap_of_trim hempty ',' hcomma
    rw [nameTexts, ownTexts, if_neg hblank]
    refine cutAtSeparators_join ⟨rfl, rfl⟩ (List.cons_ne_nil _ _) ?_
    exact List.forall_mem_cons.mpr ⟨hfield, List.forall_mem_singleton.mpr .nil⟩
  | first :: second :: rest, h => exact ownTexts_join h

/-- The texts of the name of a tuple are read as its fields without names, unless one of them has a
tuple of one field or the tuple is one. -/
theorem readParams_nameTexts {ts : List AbiType}
    (h : ∀ t ∈ ts, readParam [] [] t.name =
      if t.hasLoneField then .error .emptyParameter else .ok t.unnamed) :
    readParams [] [] (nameTexts (ts.map AbiType.name)) =
      if (AbiType.tuple ts).hasLoneField then .error .emptyParameter
      else .ok (AbiType.unnamedParams ts) := by
  rw [AbiType.unnamedParams_eq, AbiType.hasLoneField, AbiType.anyHasLoneField_eq]
  match ts, h with
  | [], h => exact readParams_map_eq h
  | [t], h =>
    -- Whatever comes of the field, the empty text behind it is refused.
    have hlast : readParams [] [] [[]] = .error .emptyParameter := by
      rw [readParams, readParam_nil]
    rw [List.map_singleton, nameTexts, readParams, h t List.mem_cons_self, hlast]
    cases t.hasLoneField <;> rfl
  | first :: second :: rest, h => exact readParams_map_eq h

/-- A type without anything around it. -/
def nothingAround : Surroundings := ⟨[], [], [], none, []⟩

/-- Nothing is laid out. -/
theorem isLaidOut_nothingAround : nothingAround.IsLaidOut := by decide

/-- The text of a type with nothing around it is its own. -/
theorem text_nothingAround (base : List Char) : nothingAround.text base = base := by
  simp [nothingAround, Surroundings.text, Surroundings.typeText, Surroundings.words]

/-- The name of a type with an array suffix ends with the suffix. -/
theorem name_suffixed (t : AbiType) (s : Suffix) :
    (t.suffixed s).name = t.name ++ WrittenSuffix.text ⟨[], s, []⟩ := by
  cases s with
  | none => rfl
  | some n =>
    unfold WrittenSuffix.text WrittenSuffix.content
    rw [List.nil_append, List.append_nil]
    rfl

/-- An array suffix of a type is one around it, in the text and in what comes of it. -/
theorem text_suffixed (a : Surroundings) (t : AbiType) (s : Suffix) :
    a.text (t.suffixed s).name =
        { a with suffixes := ⟨[], s, []⟩ :: a.suffixes : Surroundings }.text t.name ∧
      readingOf a (t.suffixed s) =
        readingOf { a with suffixes := ⟨[], s, []⟩ :: a.suffixes } t := by
  constructor
  · rw [name_suffixed]
    unfold Surroundings.text Surroundings.typeText
    rw [List.flatMap_cons, List.append_assoc t.name]
    rfl
  · cases s <;> rfl

/-- The canonical name of a type is read as the type, whatever stands around it, unless a tuple of
one field stands in it. -/
theorem yields_name {t : AbiType} (h : IsNameable t) {a : Surroundings} (ha : a.IsLaidOut) :
    Yields (a.text t.name) (readingOf a t) := by
  -- An array suffix of the type goes over to what stands around, which therefore varies.
  induction h generalizing a with
  | @elementary t h =>
    obtain ⟨hread, hname, hfree, hsame⟩ := elementary_of_mem h
    have hreading : readingOf a t = (resolveBase t.name).map fun r => a.param r.1 r.2 := by
      rw [resolveBase_of_isTypeName hname, hread]
      cases t <;> first | rfl | cases hsame
    rw [hreading]
    exact yields_of_isBase ha (isBase_of_isTypeName hname) hfree
  | @suffixed t s hs _ ih =>
    obtain ⟨htext, hreading⟩ := text_suffixed a t s
    rw [htext, hreading]
    refine ih { ha with suffixes := List.forall_mem_cons.mpr ⟨⟨?_, ?_, hs⟩, ha.suffixes⟩ }
    · exact Text.isGap_nil
    · exact Text.isGap_nil
  | @tuple ts _ ih =>
    have hfields : ∀ t ∈ ts, Yields t.name (readingOf nothingAround t) := by
      intro t ht
      have hfield := ih t ht isLaidOut_nothingAround
      rwa [text_nothingAround] at hfield
    have hname : (AbiType.tuple ts).name =
        tupleText false (Text.join [','] (nameTexts (ts.map AbiType.name))) := by
      rw [AbiType.name, AbiType.names_eq, tupleName_eq]
    have hown := ownTexts_nameTexts (List.forall_mem_map.mpr fun t ht =>
      ⟨(hfields t ht).nested, (hfields t ht).nonblank⟩)
    have hreading : readingOf a (.tuple ts) =
        (resolveBase (AbiType.tuple ts).name).map fun r => a.param r.1 r.2 := by
      rw [hname, resolveBase_tupleText, hown, readParams_nameTexts fun t ht => (hfields t ht).read]
      unfold readingOf
      cases (AbiType.tuple ts).hasLoneField with
      | true => rfl
      | false =>
        rw [if_neg Bool.false_ne_true, if_neg Bool.false_ne_true]
        dsimp only [Except.map, fieldsAsTuple]
        rw [AbiType.map_type_unnamedParams, AbiType.unnamedFields]
    rw [hreading, hname]
    refine yields_of_isBase ha (isBase_tupleText (nested_of_ownTexts ?_))
      (keywordFree_tupleText (keywordFree_of_ownTexts ?_))
    · rw [hown]
      exact forall_mem_nameTexts .nil (List.forall_mem_map.mpr fun t ht => (hfields t ht).nested)
    · rw [hown]
      exact forall_mem_nameTexts .nil
        (List.forall_mem_map.mpr fun t ht => (hfields t ht).keywordFree)

/-! ## Declarations -/

/-- A declaration without the keyword is read as the list of its texts. -/
theorem parse_singleton {s : String} (h : KeywordFree s.toList) :
    parse [s] = match readParams [] [] (ownTexts s.toList) with
      | .error e => .error (.malformedDeclaration s e.message)
      | .ok params => .ok params := by
  have htake := takeAllStructs_of_cutAtKeyword?
    (List.forall_mem_singleton.mpr (cutAtKeyword?_of_keywordFree h)) []
  rw [parse_of_takeAllStructs htake, List.map_singleton, readDeclarations_cons]
  cases readParams [] [] (ownTexts s.toList) with
  | error e => rfl
  | ok params =>
    rw [readDeclarations]
    dsimp only [Except.map]
    rw [List.append_nil]

/-- A list of texts of which each is read as a parameter or as empty is read as the parameters, or
refused as having an empty one. -/
theorem parse_join {α : Type} {text : α → List Char} {lone : α → Bool} {param : α → Param}
    {xs : List α} (h : ∀ x ∈ xs, Yields (text x)
      (if lone x then .error .emptyParameter else .ok (param x)))
    {s : String} (hs : s.toList = Text.join [','] (xs.map text)) :
    parse [s] = if xs.any lone then .error (.malformedDeclaration s "empty parameter")
      else .ok (xs.map param) := by
  have hfree : KeywordFree s.toList := by
    rw [hs]
    exact keywordFree_join_iff.mpr (List.forall_mem_map.mpr fun x hx => (h x hx).keywordFree)
  have hown : ownTexts s.toList = xs.map text := by
    rw [hs]
    exact ownTexts_join
      (List.forall_mem_map.mpr fun x hx => ⟨(h x hx).nested, (h x hx).nonblank⟩)
  rw [parse_singleton hfree, hown, readParams_map_eq fun x hx => (h x hx).read]
  cases xs.any lone <;> rfl

/-- What stands around the type of a parameter in a listing, behind some blanks. -/
def listed (lead : List Char) (p : Param) : Surroundings :=
  ⟨lead, [], [], p.name.map fun name => ⟨[' '], name.toList⟩, []⟩

/-- A parameter of declarations is laid out in a listing. -/
theorem isLaidOut_listed {lead : List Char} (hlead : Text.IsGap lead) {p : Param}
    (h : IsDeclared p) : (listed lead p).IsLaidOut where
  lead := hlead
  trail := Text.isGap_nil
  suffixes := List.forall_mem_nil _
  gaps := by
    intro w hw
    obtain ⟨name, -, rfl⟩ := Option.map_eq_some_iff.mp (Option.mem_toList.mp hw)
    exact ⟨(by decide : Text.IsGap [' ']), List.cons_ne_nil _ _⟩
  modifiers := List.forall_mem_nil _
  name := by
    intro w hw
    obtain ⟨name, hname, rfl⟩ := Option.map_eq_some_iff.mp hw
    have hparam := h.name name hname
    exact ⟨hparam.isIdentifier, hparam.notMem_modifiers, hparam.ne_keyword⟩

/-- The entry of a parameter of declarations in a listing is its type with the name around it. -/
theorem toList_listingEntry {p : Param} (h : IsDeclared p) :
    p.listingEntry.toList = (listed [] p).text p.type.name := by
  have hkind : p.type.text.toList = p.type.name := by
    rw [AbiType.text_eq, String.toList_ofList]
  unfold Param.listingEntry Param.nonBlankName? listed Surroundings.text Surroundings.typeText
  cases hname : p.name with
  | none => simp [Surroundings.words, hkind]
  | some name =>
    have hword := Text.isWord_of_isIdentifier (h.name name hname).isIdentifier
    rw [Option.bind_some, Text.nonBlank?_of_isWord hword]
    simp [Surroundings.words, WrittenWord.text, hkind]

/-- Commas with a blank behind them are commas in front of texts with a blank in front. -/
theorem join_comma_blank (first : List Char) (rest : List (List Char)) :
    Text.join [',', ' '] (first :: rest) = Text.join [','] (first :: rest.map (' ' :: ·)) := by
  induction rest generalizing first with
  | nil => rfl
  | cons second rest ih =>
    have hblank : Text.join [','] ((' ' :: second) :: rest.map (' ' :: ·)) =
        ' ' :: Text.join [','] (second :: rest.map (' ' :: ·)) := by
      cases rest <;> rfl
    rw [List.map_cons, Text.join, Text.join, ih, hblank]
    rfl

/-- Parameters with the blanks that stand in front of them in a listing. -/
def withLeads : List Param → List (List Char × Param)
  | [] => []
  | p :: rest => ([], p) :: rest.map fun q => ([' '], q)

/-- The parameters are left as they are. -/
theorem map_snd_withLeads (params : List Param) : (withLeads params).map Prod.snd = params := by
  cases params with
  | nil => rfl
  | cons p rest =>
    rw [withLeads, List.map_cons, List.map_map]
    exact congrArg (p :: ·) (List.map_id rest)

/-- Only blanks stand in front of the parameters. -/
theorem of_mem_withLeads {params : List Param} {x : List Char × Param} (h : x ∈ withLeads params) :
    Text.IsGap x.1 ∧ x.2 ∈ params := by
  have hmem : x.2 ∈ params := by
    rw [← map_snd_withLeads params]
    exact List.mem_map_of_mem h
  refine ⟨?_, hmem⟩
  cases params with
  | nil => cases h
  | cons p rest =>
    rcases List.mem_cons.mp h with rfl | h
    · exact Text.isGap_nil
    · obtain ⟨q, -, rfl⟩ := List.mem_map.mp h
      exact (by decide : Text.IsGap [' '])

/-- The entry of a parameter of declarations is read as its type with its name, whatever blanks
stand in front. -/
theorem yields_listed {lead : List Char} (hlead : Text.IsGap lead) {p : Param}
    (h : IsDeclared p) :
    Yields ((listed lead p).text p.type.name)
      (if p.type.hasLoneField then .error .emptyParameter
        else .ok ⟨p.name, p.kind, p.type, p.type.unnamedFields⟩) := by
  have hparam : (listed lead p).param p.type p.type.unnamedFields =
      ⟨p.name, p.kind, p.type, p.type.unnamedFields⟩ := by
    unfold listed Surroundings.param
    rw [h.kind_eq, Option.map_map]
    cases p.name with
    | none => rfl
    | some name =>
      dsimp only [Option.map_some, Function.comp]
      rw [String.ofList_toList]
      rfl
  rw [← hparam]
  exact yields_name h.isNameable (isLaidOut_listed hlead h)

/-- A listing has commas between the types of the parameters with what stands around them. -/
theorem toList_listing {params : List Param} (h : ∀ p ∈ params, IsDeclared p) :
    (Param.listing params).toList =
      Text.join [','] ((withLeads params).map fun x => (listed x.1 x.2).text x.2.type.name) := by
  have hentries : (params.map Param.listingEntry).map String.toList =
      params.map fun p => (listed [] p).text p.type.name := by
    rw [List.map_map]
    exact List.map_congr_left fun p hp => toList_listingEntry (h p hp)
  unfold Param.listing Text.joinWith
  rw [String.toList_ofList, hentries]
  cases params with
  | nil => rfl
  | cons p rest =>
    have hcomma : ", ".toList = [',', ' '] := by decide
    rw [hcomma, List.map_cons, join_comma_blank, withLeads, List.map_cons, List.map_map,
      List.map_map]
    rfl

/-- The canonical name of a type is read as the type, unless a tuple of one field stands in it. -/
theorem parse_text {t : AbiType} (h : IsNameable t) :
    parse [t.text] =
      if t.hasLoneField then .error (.malformedDeclaration t.text "empty parameter")
      else .ok [t.unnamed] := by
  have hname : t.text.toList = Text.join [','] ([t].map AbiType.name) := by
    rw [AbiType.text_eq, String.toList_ofList]
    rfl
  have hsole := yields_name h isLaidOut_nothingAround
  rw [text_nothingAround] at hsole
  have hall : ∀ u ∈ [t], Yields u.name
      (if u.hasLoneField then .error .emptyParameter else .ok u.unnamed) :=
    List.forall_mem_singleton.mpr hsole
  rw [parse_join hall hname, List.any_cons, List.any_nil, Bool.or_false, List.map_singleton]

/-- The listing of parameters of declarations is read as parameters with the same types and names,
unless a tuple of one field stands in a type. -/
theorem parse_listing {params : List Param} (h : ∀ p ∈ params, IsDeclared p) :
    parse [Param.listing params] =
      if params.any (·.type.hasLoneField) then
        .error (.malformedDeclaration (Param.listing params) "empty parameter")
      else .ok (params.map fun p => ⟨p.name, p.kind, p.type, p.type.unnamedFields⟩) := by
  have hall : ∀ x ∈ withLeads params, Yields ((listed x.1 x.2).text x.2.type.name)
      (if x.2.type.hasLoneField then .error .emptyParameter
        else .ok ⟨x.2.name, x.2.kind, x.2.type, x.2.type.unnamedFields⟩) := by
    intro x hx
    obtain ⟨hlead, hmem⟩ := of_mem_withLeads hx
    exact yields_listed hlead (h x.2 hmem)
  rw [parse_join hall (toList_listing h)]
  -- The blanks in front make no difference any more.
  cases params with
  | nil => rfl
  | cons p rest =>
    rw [withLeads, List.any_cons, List.any_map, List.map_cons, List.map_map]
    rfl

/-- What parameters are shown by can be read again, unless a tuple of one field stands in a type.
For all declarations that are read and every parameter of them, the text of the type is read as the
type, without a name, and shown by the same text. The listing of the parameters, which is what the
faults of decoding show, is read as parameters with the same types and names. With a tuple of one
field both are refused, for the nothing behind the comma in its name. -/
theorem canonical_names_read_back [Memory] {declarations : List String} {params : List Param}
    (h : parse declarations = .ok params) :
    (∀ p ∈ params, parse [p.kind] =
      if p.type.hasLoneField then .error (.malformedDeclaration p.kind "empty parameter")
      else .ok [⟨none, p.kind, p.type, p.type.unnamedFields⟩]) ∧
    (parse [Param.listing params] =
      if params.any (·.type.hasLoneField) then
        .error (.malformedDeclaration (Param.listing params) "empty parameter")
      else .ok (params.map fun p => ⟨p.name, p.kind, p.type, p.type.unnamedFields⟩)) ∧
    ∀ data e, decodeValues params data = .error e →
      e = .tooShort (Param.listing params) (Text.Hex.ofBytes data) data.length ∨
        ∃ reason, e = .misfit (Param.listing params) data.length reason := by
  have hdeclared := isDeclared_of_parse h
  refine ⟨fun p hp => ?_, parse_listing hdeclared, fun data e he => ?_⟩
  · obtain ⟨hkind, hnameable, -⟩ := hdeclared p hp
    rw [hkind]
    exact parse_text hnameable
  · obtain rfl | ⟨misfit, -, rfl⟩ := of_decodeValues_error he
    · exact .inl rfl
    · exact .inr ⟨misfit.message, rfl⟩

attribute [local instance] Memory.usual

/-- The sample parameters are read back from the names of their types and from their listing. -/
theorem sampleParams_read_back :
    parse (sampleGroups.map declaration) = .ok sampleParams ∧
      sampleParams.map Param.kind = ["(uint256,()[3])[][2]", "address", "bytes7"] ∧
      (∀ p ∈ sampleParams, parse [p.kind] = .ok [⟨none, p.kind, p.type, p.type.unnamedFields⟩]) ∧
      parse ["(uint256,()[3])[][2] items, address, bytes7 tag"] =
        .ok (sampleParams.map fun p => ⟨p.name, p.kind, p.type, p.type.unnamedFields⟩) := by
  have hparse : parse (sampleGroups.map declaration) = .ok sampleParams :=
    eq_ok_of_toOption (toOption_parse_of_known (by simp [sampleGroups]) (by decide +kernel) (by rfl))
  have hlone : ∀ p ∈ sampleParams, p.type.hasLoneField = false := by
    intro p hp
    simp only [sampleParams, List.mem_cons, List.not_mem_nil, or_false] at hp
    rcases hp with rfl | rfl | rfl <;> rfl
  obtain ⟨hkinds, hlisting, -⟩ := canonical_names_read_back hparse
  refine ⟨hparse, by rfl, fun p hp => ?_, ?_⟩
  · rw [hkinds p hp, hlone p hp, if_neg Bool.false_ne_true]
  · exact hlisting

/-- Not every canonical name is read back: a tuple of one field is shown as `(uint256,)`, and this
has an empty field. -/
theorem not_forall_kind_reads_back :
    ¬∀ declarations params, parse declarations = .ok params → ∀ p ∈ params,
      ∃ q, parse [p.kind] = .ok [q] ∧ q.name = none ∧ q.type = p.type ∧ q.kind = p.kind := by
  intro hall
  have hparse : parse ["(uint256)"] = .ok [(AbiType.tuple [.uint 256]).unnamed] :=
    eq_ok_of_toOption (@toOption_parse_of_known
      [[.tuple false [.elementary "uint256".toList nothingAround] nothingAround]] _
      (by simp) (by decide +kernel) (by rfl))
  have hnameable : IsNameable (.tuple [.uint 256]) :=
    .tuple (List.forall_mem_singleton.mpr
      (.elementary (mem_elementaryTypes_of_bits (by decide) (by decide) rfl).1))
  have hlone : (AbiType.tuple [.uint 256]).hasLoneField = true := rfl
  have hrefused := parse_text hnameable
  rw [if_pos hlone] at hrefused
  obtain ⟨q, hq, -⟩ := hall _ _ hparse _ (List.mem_singleton.mpr rfl)
  cases hrefused.symm.trans hq

end RollupInput.Declaration
