import RollupInput.Proofs.Declaration.Cycles
import RollupInput.Proofs.Declaration.Layout
import RollupInput.Proofs.Declaration.Specifiers

/-!
# Bases of types that are read

The base of the type of a parameter that is read is the name of a struct, the name of an elementary
type or a tuple of parameters that are read. So its brackets pair up, and neither blanks nor commas
stand outside of them.
-/

namespace RollupInput.Abi.TypeText

/-! ## Where specifiers end -/

/-- A name is read from the head of a text. -/
theorem suffix_of_readName? {cs name rest : List Char} (h : readName? cs = some (name, rest)) :
    rest <:+ cs := by
  obtain ⟨p, hp, hpair⟩ := Option.map_eq_some_iff.mp h
  obtain ⟨hcs, -, -⟩ := Declaration.of_readIdentifier? hp
  have htail : p.2 <:+ cs := ⟨p.1, hcs.symm⟩
  split at hpair
  · rename_i more hpoint
    obtain ⟨-, rfl⟩ := Prod.mk.inj hpair
    rw [hpoint] at htail
    have hmore : more <:+ cs := (List.suffix_cons '.' more).trans htail
    cases hidentifier : readIdentifier? more with
    | none => exact hmore
    | some q =>
      obtain ⟨hsplit, -, -⟩ := Declaration.of_readIdentifier? hidentifier
      exact List.IsSuffix.trans ⟨q.1, hsplit.symm⟩ hmore
  · obtain ⟨-, rfl⟩ := Prod.mk.inj hpair
    exact htail

/-- An array suffix is read up to its closing bracket, with digits in front of it. -/
theorem of_readSuffix? {cs rest : List Char} {s : Suffix} (h : readSuffix? cs = some (s, rest)) :
    ∃ digits, (∀ d ∈ digits, Text.isDigit d = true) ∧ cs = digits ++ ']' :: rest := by
  unfold readSuffix? at h
  split at h
  · cases h
    exact ⟨[], List.forall_mem_nil _, rfl⟩
  · split at h
    · rename_i n more hn hmore
      split at h
      · cases h
        refine ⟨cs.takeWhile Text.isDigit, fun d hd => List.mem_takeWhile_imp hd, ?_⟩
        rw [← hmore]
        exact List.takeWhile_append_dropWhile.symm
      · cases h
    · cases h

/-- Array suffixes are read from the head of a text. If there are some and nothing follows them, the
text ends with digits in brackets. -/
theorem of_readSuffixes? {steps : Nat} {cs rest : List Char} {suffixes : List Suffix}
    (h : readSuffixes? steps cs = some (suffixes, rest)) :
    rest <:+ cs ∧ (suffixes ≠ [] → rest = [] →
      ∃ front digits, (∀ d ∈ digits, Text.isDigit d = true) ∧
        cs = front ++ '[' :: (digits ++ [']'])) := by
  induction steps generalizing cs suffixes with
  | zero => cases h
  | succ steps ih =>
    unfold readSuffixes? at h
    split at h
    · rename_i more
      obtain ⟨s, hs, h⟩ := Option.bind_eq_some_iff.mp h
      obtain ⟨p, hp, hpair⟩ := Option.map_eq_some_iff.mp h
      cases hpair
      obtain ⟨digits, hdigits, rfl⟩ := of_readSuffix? hs
      obtain ⟨hsuffix, hends⟩ := ih hp
      refine ⟨hsuffix.trans ⟨'[' :: (digits ++ [']']), by simp⟩, fun _ hrest => ?_⟩
      by_cases hlast : p.1 = []
      · obtain ⟨own, tail⟩ := p
        obtain rfl : own = [] := hlast
        have hnothing := Declaration.eq_of_readSuffixes? hp
        dsimp only at hrest hnothing
        refine ⟨[], digits, hdigits, ?_⟩
        rw [← hnothing, hrest]
        rfl
      · obtain ⟨front, others, hothers, htext⟩ := hends hlast hrest
        exact ⟨'[' :: (digits ++ ']' :: front), others, hothers, by rw [htext]; simp⟩
    · cases h
      exact ⟨List.suffix_rfl, fun hne => absurd rfl hne⟩

/-- The spaces that are skipped are taken off the head. -/
theorem suffix_skipGap (cs : List Char) : skipGap cs <:+ cs := List.dropWhile_suffix _

/-- What follows an opening parenthesis is the end of the text. -/
theorem suffix_of_opening? {cs rest : List Char} (h : opening? cs = some rest) : rest <:+ cs := by
  unfold opening? at h
  split at h
  · cases h
    exact List.suffix_cons _ _
  · unfold Text.after? at h
    split at h
    · cases h
      exact List.drop_suffix _ _
    · cases h

mutual

/-- A specifier is read from the head of a text, and its suffixes from the head of what is left of it
then. -/
theorem of_read? {steps levels : Nat} {cs rest : List Char} {t : TypeText}
    (h : read? steps levels cs = some (t, rest)) :
    ∃ more left, left <:+ cs ∧ readSuffixes? more left = some (t.suffixes, rest) := by
  match steps, levels with
  | 0, _ => cases h
  | _ + 1, 0 => cases h
  | steps + 1, levels + 1 =>
    rw [read?] at h
    cases hopening : opening? cs with
    | some inner =>
      rw [hopening] at h
      obtain ⟨fields, hfields, h⟩ := Option.bind_eq_some_iff.mp h
      obtain ⟨s, hs, hpair⟩ := Option.map_eq_some_iff.mp h
      cases hpair
      refine ⟨steps, fields.2, ?_, hs⟩
      have hinner := (suffix_skipGap inner).trans (suffix_of_opening? hopening)
      split at hfields
      · rename_i more hmore
        cases hfields
        rw [hmore] at hinner
        exact (List.suffix_cons ')' more).trans hinner
      · exact (suffix_of_readFields? hfields).trans hinner
    | none =>
      rw [hopening] at h
      obtain ⟨name, hname, h⟩ := Option.bind_eq_some_iff.mp h
      obtain ⟨s, hs, hpair⟩ := Option.map_eq_some_iff.mp h
      cases hpair
      exact ⟨steps, name.2, suffix_of_readName? hname, hs⟩

/-- The specifiers of a list are read from the head of a text. -/
theorem suffix_of_readFields? {steps levels : Nat} {cs : List Char}
    {fields : List TypeText × List Char} (h : readFields? steps levels cs = some fields) :
    fields.2 <:+ cs := by
  match steps with
  | 0 => cases h
  | steps + 1 =>
    rw [readFields?] at h
    obtain ⟨field, hfield, h⟩ := Option.bind_eq_some_iff.mp h
    obtain ⟨more, left, hleft, hsuffixes⟩ := of_read? hfield
    have htail : field.2 <:+ cs := (of_readSuffixes? hsuffixes).1.trans hleft
    split at h
    · rename_i behind hcomma
      rw [hcomma] at htail
      have hskip := (suffix_skipGap behind).trans ((List.suffix_cons ',' behind).trans htail)
      split at h
      · rename_i last hlast
        cases h
        rw [hlast] at hskip
        exact (List.suffix_cons ')' last).trans hskip
      · obtain ⟨p, hp, hpair⟩ := Option.map_eq_some_iff.mp h
        cases hpair
        exact (suffix_of_readFields? hp).trans hskip
    · have hskip := (suffix_skipGap field.2).trans htail
      split at h
      · rename_i last hlast
        cases h
        rw [hlast] at hskip
        exact (List.suffix_cons ')' last).trans hskip
      · cases h

end

/-- The text of a specifier with suffixes ends with digits in brackets. -/
theorem ends_of_parse? {cs : List Char} {t : TypeText} (h : parse? cs = some t)
    (hne : t.suffixes ≠ []) :
    ∃ front digits, (∀ d ∈ digits, Text.isDigit d = true) ∧
      cs = front ++ '[' :: (digits ++ [']']) := by
  unfold parse? at h
  split at h
  · rename_i u hread
    cases h
    obtain ⟨more, left, ⟨before, rfl⟩, hsuffixes⟩ := of_read? hread
    obtain ⟨front, digits, hdigits, rfl⟩ := (of_readSuffixes? hsuffixes).2 hne rfl
    exact ⟨before ++ front, digits, hdigits, by rw [List.append_assoc]⟩
  · cases h

end RollupInput.Abi.TypeText

namespace RollupInput.Declaration

open Abi

/-! ## Bases -/

/-- A text that is resolved as an elementary type is read as an identifier that names the type,
unless it ends with a suffix. -/
theorem named_of_elementary {base : List Char} {t : AbiType} (h : elementary base = .ok t)
    (hlast : ∀ rest, base.reverse = ']' :: rest → ')' ∈ rest.takeWhile (· != '[')) :
    ∃ identifier, TypeText.parse? base = some (.named identifier []) ∧
      AbiType.ofName identifier = .ok t := by
  unfold elementary AbiType.parse at h
  cases hparse : TypeText.parse? base with
  | none =>
    rw [hparse] at h
    cases h
  | some specifier =>
    have hnone : specifier.suffixes = [] := by
      by_contra hne
      obtain ⟨front, digits, hdigits, rfl⟩ := TypeText.ends_of_parse? hparse hne
      have hmem := hlast (digits.reverse ++ '[' :: front.reverse) (by simp)
      have htake : (digits.reverse ++ '[' :: front.reverse).takeWhile (· != '[') =
          digits.reverse := by
        have hno : ∀ d ∈ digits.reverse, (d != '[') = true := by
          intro d hd
          have hdigit := hdigits d (List.mem_reverse.mp hd)
          have hplain := isPlain_of_isIdentifierChar (Text.isIdentifierChar_of_isDigit hdigit)
          exact bne_iff_ne.mpr hplain.2.2.2.2.2.1
        rw [List.takeWhile_append_of_pos hno, List.takeWhile_cons_of_neg (by decide),
          List.append_nil]
      rw [htake, List.mem_reverse] at hmem
      cases hdigits ')' hmem
    rw [hparse] at h
    dsimp only at h
    cases specifier with
    | named identifier suffixes =>
      obtain rfl : suffixes = [] := hnone
      rw [AbiType.ofText] at h
      refine ⟨identifier, rfl, ?_⟩
      split at h
      · cases h
      · cases h
      · rename_i hname
        cases h
        obtain ⟨u, hu, rfl⟩ := ok_of_map hname
        exact hu
    | tuple fields suffixes =>
      obtain rfl : suffixes = [] := hnone
      rw [AbiType.ofText] at h
      cases hfields : AbiType.ofTexts fields with
      | error e =>
        rw [hfields] at h
        cases h
      | ok ts =>
        rw [hfields] at h
        cases h

/-- A text that is resolved as an elementary type is a name, unless it ends with a suffix. -/
theorem isTypeName_of_elementary {base : List Char} {t : AbiType} (h : elementary base = .ok t)
    (hlast : ∀ rest, base.reverse = ']' :: rest → ')' ∈ rest.takeWhile (· != '[')) :
    IsTypeName base := by
  obtain ⟨identifier, hparse, -⟩ := named_of_elementary h hlast
  exact (isTypeName_of_readName? (readName?_of_parse? hparse)).1

/-- The text between the parentheses of a tuple stands between them. -/
theorem of_tupleList {list inner : List Char}
    (h : (Text.after? ['('] list).bind (Text.before? [')']) = some inner) :
    list = '(' :: (inner ++ [')']) := by
  obtain ⟨more, hmore, hinner⟩ := Option.bind_eq_some_iff.mp h
  unfold Text.after? at hmore
  split at hmore
  · rename_i hopen
    obtain ⟨tail, rfl⟩ := List.isPrefixOf_iff_prefix.mp hopen
    cases hmore
    unfold Text.before? at hinner
    split at hinner
    · rename_i hclose
      obtain ⟨front, hfront⟩ := List.isSuffixOf_iff_suffix.mp hclose
      cases hinner
      have htail : tail = front ++ [')'] := hfront.symm
      subst htail
      simp
    · cases hinner
  · cases hmore

/-- The base of a type that is a tuple is one between parentheses, with or without the word in front.
No blank stands behind the word, because the type would end there. -/
theorem exists_tupleText {base inner suffixes behind : List Char} (htight : Text.IsTight base)
    (hcut : cutType? (base ++ suffixes ++ behind) = some (base ++ suffixes, behind))
    (h : tupleInner? base = some inner) : ∃ marked, base = tupleText marked inner := by
  have hlist := of_tupleList h
  unfold Text.after? at hlist
  split at hlist
  · rename_i hword
    obtain ⟨more, rfl⟩ := List.isPrefixOf_iff_prefix.mp hword
    have hmore : Text.trim more = '(' :: (inner ++ [')']) := hlist
    obtain ⟨before, after, hbefore, hafter, hsplit⟩ := Text.exists_gaps more
    rw [hmore] at hsplit
    obtain rfl : after = [] := by
      cases hlast : after.getLast? with
      | none => exact List.getLast?_eq_none_iff.mp hlast
      | some b =>
        have hblank := hafter b (List.mem_of_mem_getLast? hlast)
        rw [htight.2 b ?_] at hblank
        · cases hblank
        · rw [hsplit]
          refine getLast?_of_append (getLast?_of_append (getLast?_of_append hlast))
    obtain rfl : before = [] := by
      cases before with
      | nil => rfl
      | cons b before =>
        exfalso
        have hends (rest : List Char) : Text.EndsWord (b :: rest) := by
          intro c hc
          obtain rfl : b = c := Option.some.inj hc
          exact hbefore b List.mem_cons_self
        have hword := fun rest => cutType_of_nested (nested_tuple.mono fun _ hc => hc.1) (hends rest)
        have hcons (cs rest : List Char) : b :: cs ++ rest = b :: (cs ++ rest) := rfl
        simp only [hsplit, List.append_assoc, hcons] at hcut
        rw [hword] at hcut
        have hlength := congrArg List.length (Prod.mk.inj (Option.some.inj hcut)).1
        simp at hlength
    refine ⟨true, ?_⟩
    rw [hsplit, List.nil_append, List.append_nil]
    rfl
  · refine ⟨false, ?_⟩
    have hbase : Text.trim base = '(' :: (inner ++ [')']) := hlist
    rw [Text.trim_of_isTight htight] at hbase
    exact hbase

/-- A list is nested if each of its texts is. -/
theorem nested_of_ownTexts {list : List Char} (h : ∀ text ∈ ownTexts list, Nested (· ≠ ',') text) :
    Nested (fun _ => True) list := by
  unfold ownTexts at h
  split at h
  · rename_i hblank
    have hgap := Text.isGap_of_trim (List.isEmpty_iff.mp hblank)
    exact .of_forall (fun c hc => (isPlain_of_isBlank (hgap c hc)).1) fun _ _ => trivial
  · rw [← join_cutFrom ',' 0 list]
    exact nested_join h

/-- The base of a type has no blanks around it. -/
theorem isTight_of_cutParam {written : List Char} {c : Cut} (h : cutParam written = .ok c) :
    Text.IsTight c.base := by
  obtain ⟨typeText, rest, -, -, hsuffixes⟩ := cuts_of_cutParam h
  obtain ⟨p, -, hpair⟩ := Option.map_eq_some_iff.mp hsuffixes
  rw [← (Prod.mk.inj hpair).1]
  exact Text.isTight_trim _

section

variable {table : FieldTable} {steps : Nat} {stack : Stack} {written : List Char} {p : Param}

/-- The text of a parameter that is read is a base in a frame, and it is nested. -/
theorem exists_frame_of_resolve
    (hnames : ∀ name fields, table name = some fields → Text.isIdentifier name = true)
    (h : resolve table steps stack written = some (.ok p)) :
    ∃ c f, cutParam written = .ok c ∧ Frame.IsRead f c.name ∧ f.sizes = c.suffixes ∧
      written = f.text c.base ∧ IsBase c.base := by
  induction steps generalizing stack written p with
  | zero => cases h
  | succ steps ih =>
    obtain ⟨c, resolved, hcut, hopen, hparam⟩ := ok_of_resolve h
    obtain ⟨type, hwith, -⟩ := ok_of_map hparam
    obtain ⟨f, hread, hsizes, htext, htype, hlast⟩ :=
      exists_frame hcut (isSizeText_of_withSuffixes hwith)
    refine ⟨c, f, hcut, hread, hsizes, htext, ?_⟩
    cases hinside : inside? table c.base with
    | none =>
      obtain ⟨t, ht, -⟩ := elementary_of_openBase hopen hinside
      exact isBase_of_isTypeName (isTypeName_of_elementary ht hlast)
    | some below =>
      obtain ⟨pushed, fields⟩ := below
      obtain ⟨-, hfields⟩ := ok_of_openBase hopen hinside
      unfold inside? at hinside
      split at hinside
      · rename_i htuple
        obtain ⟨inner, hinner, hfieldsEq⟩ := Option.map_eq_some_iff.mp htuple
        cases hinside
        obtain ⟨marked, hbase⟩ := exists_tupleText (isTight_of_cutParam hcut) htype hinner
        rw [hbase]
        refine isBase_tupleText (nested_of_ownTexts fun text hmem => ?_)
        obtain ⟨q, hq⟩ := hfields text (hfieldsEq ▸ hmem)
        obtain ⟨d, g, -, hg, -, rfl, hd⟩ := ih hq
        exact g.nested_text hg hd
      · obtain ⟨found, hfound, hpair⟩ := Option.map_eq_some_iff.mp hinside
        have hidentifier := hnames c.base found hfound
        refine isBase_of_isTypeName ⟨(Text.isWord_of_isIdentifier hidentifier).1, fun x hx => ?_⟩
        exact .inl (Text.isIdentifierChar_of_isIdentifier hidentifier x hx)

end

end RollupInput.Declaration
