import RollupInput.Proofs.Declaration.Layout

/-!
# Bases of written types

What stands around the base of a written type is taken off in three cuts: blanks, words behind the
type, array suffixes. What is left is resolved: a tuple by what stands between its parentheses,
and all else as an elementary type.
-/

namespace RollupInput.Declaration

open Abi

namespace Surroundings

variable {a : Surroundings}

/-- The words behind a type are identifiers other than the keyword. -/
theorem isIdentifier_of_mem_words (h : a.IsLaidOut) {w : WrittenWord} (hw : w ∈ a.words) :
    Text.isIdentifier w.word = true ∧ w.word ≠ keyword := by
  rcases List.mem_append.mp hw with hw | hw
  · exact isIdentifier_of_mem_modifiers (h.modifiers w hw)
  · have hname := h.name w (Option.mem_toList.mp hw)
    exact ⟨hname.1, hname.2.2⟩

end Surroundings

/-- Words behind a type start with a blank. -/
theorem endsWord_flatMap {ws : List WrittenWord}
    (h : ∀ w ∈ ws, Text.IsGap w.gap ∧ w.gap ≠ []) :
    Text.EndsWord (ws.flatMap WrittenWord.text) := by
  cases ws with
  | nil =>
    intro c hc
    cases hc
  | cons w rest =>
    obtain ⟨hgap, hne⟩ := h w List.mem_cons_self
    obtain ⟨b, gap, hb⟩ := List.exists_cons_of_ne_nil hne
    intro c hc
    rw [List.flatMap_cons, WrittenWord.text, hb] at hc
    obtain rfl : b = c := Option.some.inj hc
    exact hgap b (by rw [hb]; exact List.mem_cons_self)

/-- The words of written words are the words. -/
theorem words_flatMap {ws : List WrittenWord} (hgaps : ∀ w ∈ ws, Text.IsGap w.gap ∧ w.gap ≠ [])
    (hwords : ∀ w ∈ ws, Text.IsWord w.word) :
    Text.words (ws.flatMap WrittenWord.text) = ws.map WrittenWord.word := by
  induction ws with
  | nil => rfl
  | cons w rest ih =>
    have hgaps' : ∀ x ∈ rest, Text.IsGap x.gap ∧ x.gap ≠ [] := fun x hx =>
      hgaps x (List.mem_cons_of_mem w hx)
    have hrest := ih hgaps' fun x hx => hwords x (List.mem_cons_of_mem w hx)
    rw [List.flatMap_cons, WrittenWord.text, List.append_assoc,
      Text.words_append_of_isGap (hgaps w List.mem_cons_self).1,
      Text.words_append_of_isWord (hwords w List.mem_cons_self) (endsWord_flatMap hgaps'), hrest,
      List.map_cons]

/-- The name is read from behind the modifiers. -/
theorem readName_words {a : Surroundings} (h : a.IsLaidOut) (text : List Char) :
    readName text (a.words.flatMap WrittenWord.text) = .ok (a.name.map WrittenWord.word) := by
  have hwords := words_flatMap h.gaps fun w hw =>
    Text.isWord_of_isIdentifier (a.isIdentifier_of_mem_words h hw).1
  have hmodifiers : (a.modifiers.map WrittenWord.word).filter (!modifiers.contains ·) = [] := by
    rw [List.filter_eq_nil_iff]
    intro word hword
    obtain ⟨w, hw, rfl⟩ := List.mem_map.mp hword
    rw [List.contains_iff_mem.mpr (h.modifiers w hw)]
    decide
  unfold readName
  rw [hwords, Surroundings.words, List.map_append, List.filter_append, hmodifiers, List.nil_append]
  cases hname : a.name with
  | none => rfl
  | some w =>
    obtain ⟨hidentifier, hnot, -⟩ := h.name w hname
    have hkept : (!modifiers.contains w.word) = true := by
      rw [Bool.not_eq_true', Bool.eq_false_iff, Ne, List.contains_iff_mem]
      exact hnot
    have hfilter : [w.word].filter (!modifiers.contains ·) = [w.word] :=
      List.filter_cons_of_pos hkept
    rw [Option.toList_some, List.map_cons, List.map_nil, hfilter]
    dsimp only
    rw [if_pos hidentifier]
    rfl

/-- A text that can be the name of an elementary type: characters of identifiers and points. -/
def IsTypeName (name : List Char) : Prop :=
  name ≠ [] ∧ ∀ c ∈ name, Text.isIdentifierChar c = true ∨ c = '.'

/-- What the base of a type is resolved to where no structs are defined: its type and fields. -/
def resolveBase (base : List Char) : Except Fault (AbiType × List Param) :=
  match tupleInner? base with
  | some inner =>
    if (Text.trim inner).isEmpty then .ok (fieldsAsTuple [])
    else (readParams [] [] (cutAtSeparators ',' inner)).map fieldsAsTuple
  | none => (elementary base).map fun t => (t, [])

/-- Where no structs are defined, a base is resolved without them. -/
theorem readBase_nil (base : List Char) : readBase [] [] base = resolveBase base := by
  unfold readBase resolveBase tupleFields?
  cases tupleInner? base with
  | none =>
    dsimp only [Option.map_none, takeStruct?]
    rw [List.contains_nil, if_neg Bool.false_ne_true]
  | some inner =>
    dsimp only [Option.map_some]
    by_cases hblank : (Text.trim inner).isEmpty = true
    · rw [if_pos hblank, if_pos hblank, readParams]
      rfl
    · rw [if_neg hblank, if_neg hblank]

namespace Surroundings

variable {a : Surroundings} {base : List Char}

/-- What stands around a base, as it is cut. -/
def frame (a : Surroundings) : Frame :=
  ⟨a.lead, a.suffixes.map WrittenSuffix.content, a.words.flatMap WrittenWord.text, a.trail⟩

/-- The text of a parameter is its base in the frame. -/
theorem text_eq (a : Surroundings) (base : List Char) : a.text base = a.frame.text base := by
  have hsuffixes : a.suffixes.flatMap WrittenSuffix.text =
      suffixText (a.suffixes.map WrittenSuffix.content) := by
    unfold suffixText
    rw [List.flatMap_map]
    rfl
  unfold text typeText frame Frame.text
  rw [hsuffixes]

/-- The frame is read, with the name that is written. -/
theorem isRead_frame (h : a.IsLaidOut) : a.frame.IsRead (a.name.map WrittenWord.word) where
  lead := h.lead
  trail := h.trail
  sizes := List.forall_mem_map.mpr fun s hs c hc =>
    (s.mem_content (h.suffixes s hs) hc).imp_right .inr
  starts := endsWord_flatMap h.gaps
  ends := by
    have hlast := @getLast?_append_flatMap WrittenWord (Text.isBlank · = false) [] a.words
      WrittenWord.text (fun c hc => by cases hc) fun w hw c hc => by
        have hword := Text.isWord_of_isIdentifier (a.isIdentifier_of_mem_words h hw).1
        rw [WrittenWord.text, List.getLast?_append, List.getLast?_eq_some_getLast hword.1] at hc
        obtain rfl : w.word.getLast hword.1 = c := Option.some.inj hc
        exact hword.2 _ (List.getLast_mem hword.1)
    rwa [List.nil_append] at hlast
  name := readName_words h

/-- The text of a parameter is nested and holds no comma outside of brackets. -/
theorem nested_text (h : a.IsLaidOut) (hbase : IsBase base) : Nested (· ≠ ',') (a.text base) := by
  rw [a.text_eq]
  exact Frame.nested_text (a.isRead_frame h) hbase

/-- The text of a parameter is not only made of blanks. -/
theorem trim_text_ne_nil (h : a.IsLaidOut) (hbase : IsBase base) :
    Text.trim (a.text base) ≠ [] := by
  rw [a.text_eq]
  exact Frame.trim_text_ne_nil (a.isRead_frame h) hbase

/-- A parameter has no keyword if the base of its type has none. -/
theorem keywordFree_text (h : a.IsLaidOut) (hbase : KeywordFree base) :
    KeywordFree (a.text base) := by
  rw [a.text_eq]
  refine Frame.keywordFree_text (a.isRead_frame h) ?_ hbase
  rw [Ne, Option.map_eq_some_iff]
  rintro ⟨w, hw, hkeyword⟩
  exact (h.name w hw).2.2 hkeyword

/-- Reading a parameter resolves the base of its type, and puts the suffixes and the name to what
comes of that. -/
theorem readParam_text (h : a.IsLaidOut) (hbase : IsBase base) :
    readParam [] [] (a.text base) = (resolveBase base).map fun r => a.param r.1 r.2 := by
  have hbuilt (r : AbiType × List Param) :
      Cut.param ⟨a.name.map WrittenWord.word, base, a.frame.sizes⟩ r = .ok (a.param r.1 r.2) := by
    unfold Cut.param frame
    rw [withSuffixes_contents h.suffixes, Option.map_map]
    rfl
  rw [a.text_eq, readParam_eq, Frame.cutParam_text (a.isRead_frame h) hbase, bind_of_ok rfl,
    readBase_nil]
  cases resolveBase base with
  | error e => rfl
  | ok r => exact hbuilt r

end Surroundings

/-- The characters of a name are neither blanks nor brackets nor commas. -/
theorem isPlain_of_isTypeName {name : List Char} (h : IsTypeName name) {c : Char} (hc : c ∈ name) :
    IsPlain c ∧ Text.isBlank c = false ∧ c ≠ ',' ∧ c ≠ '(' ∧ c ≠ ']' := by
  rcases h.2 c hc with hidentifier | rfl
  · have hplain := isPlain_of_isIdentifierChar hidentifier
    exact ⟨hplain.1, Text.isBlank_of_isIdentifierChar hidentifier, hplain.2.1, hplain.2.2.2.1,
      hplain.2.2.2.2.2.2⟩
  · exact ⟨⟨rfl, rfl⟩, rfl, by decide, by decide, by decide⟩

/-- A name can be the base of a type. -/
theorem isBase_of_isTypeName {name : List Char} (h : IsTypeName name) : IsBase name where
  nonempty := h.1
  tight := Text.isTight_of_forall fun _ hc => (isPlain_of_isTypeName h hc).2.1
  last := fun _ hc => (isPlain_of_isTypeName h (List.mem_of_mem_getLast? hc)).2.2.2.2
  nested := .of_forall (fun _ hc => (isPlain_of_isTypeName h hc).1) fun _ hc =>
    ⟨(isPlain_of_isTypeName h hc).2.1, (isPlain_of_isTypeName h hc).2.2.1⟩

/-- A name is resolved as an elementary type. -/
theorem resolveBase_of_isTypeName {name : List Char} (h : IsTypeName name) :
    resolveBase name = (elementary name).map fun t => (t, []) := by
  have hround : '(' ∉ Text.trim ((Text.after? ['t', 'u', 'p', 'l', 'e'] name).getD name) := by
    intro hmem
    have hsub : ∀ c ∈ Text.trim ((Text.after? ['t', 'u', 'p', 'l', 'e'] name).getD name),
        c ∈ name := by
      intro c hc
      have hlist : c ∈ (Text.after? ['t', 'u', 'p', 'l', 'e'] name).getD name :=
        (List.dropWhile_sublist _).mem (List.mem_reverse.mp
          ((List.dropWhile_sublist _).mem (List.mem_reverse.mp hc)))
      unfold Text.after? at hlist
      split at hlist
      · exact List.mem_of_mem_drop hlist
      · exact hlist
    exact (isPlain_of_isTypeName h (hsub '(' hmem)).2.2.2.1 rfl
  have hinner : tupleInner? name = none := by
    unfold tupleInner?
    dsimp only
    have hafter : Text.after? ['(']
        (Text.trim ((Text.after? ['t', 'u', 'p', 'l', 'e'] name).getD name)) = none := by
      refine if_neg fun hprefix => ?_
      exact hround ((List.isPrefixOf_iff_prefix.mp hprefix).subset List.mem_cons_self)
    rw [hafter]
    rfl
  unfold resolveBase
  rw [hinner]

/-- What stands between the parentheses of a tuple. -/
theorem tupleInner_tupleText (marked : Bool) (inner : List Char) :
    tupleInner? (tupleText marked inner) = some inner := by
  have hlist : (Text.after? ['t', 'u', 'p', 'l', 'e'] (tupleText marked inner)).getD
      (tupleText marked inner) = '(' :: (inner ++ [')']) := by
    cases marked <;> rfl
  have htight : Text.IsTight ('(' :: (inner ++ [')'])) := by
    refine ⟨?_, ?_⟩
    · intro c hc
      obtain rfl : '(' = c := Option.some.inj hc
      rfl
    · intro c hc
      rw [← List.cons_append, List.getLast?_concat] at hc
      obtain rfl : ')' = c := Option.some.inj hc
      rfl
  have hopen : Text.after? ['('] ('(' :: (inner ++ [')'])) = some (inner ++ [')']) := rfl
  have hclose : Text.before? [')'] (inner ++ [')']) = some inner := by
    unfold Text.before?
    rw [if_pos (List.isSuffixOf_iff_suffix.mpr (List.suffix_append inner [')'])),
      List.length_append, Nat.add_sub_cancel, List.take_left]
  unfold tupleInner?
  dsimp only
  rw [hlist, Text.trim_of_isTight htight, hopen, Option.bind_some, hclose]

/-- The mark of a tuple is made of identifier characters. -/
theorem isIdentifierChar_of_mem_tuple :
    ∀ c ∈ ['t', 'u', 'p', 'l', 'e'], Text.isIdentifierChar c = true :=
  List.all_eq_true.mp (by decide)

/-- The mark of a tuple is nested and has neither blanks nor commas. -/
theorem nested_tuple :
    Nested (fun c => Text.isBlank c = false ∧ c ≠ ',') ['t', 'u', 'p', 'l', 'e'] := by
  refine .of_forall (fun c hc => ?_) fun c hc => ?_
  · exact (isPlain_of_isIdentifierChar (isIdentifierChar_of_mem_tuple c hc)).1
  · have hchar := isIdentifierChar_of_mem_tuple c hc
    exact ⟨Text.isBlank_of_isIdentifierChar hchar, (isPlain_of_isIdentifierChar hchar).2.1⟩

/-- A tuple can be the base of a type. -/
theorem isBase_tupleText {marked : Bool} {inner : List Char}
    (h : Nested (fun _ => True) inner) : IsBase (tupleText marked inner) := by
  have hbracketed : Nested (fun c => Text.isBlank c = false ∧ c ≠ ',') ('(' :: (inner ++ [')'])) :=
    .bracketed (.inl ⟨rfl, rfl⟩) h
  have hlast : ∀ c ∈ (tupleText marked inner).getLast?, c = ')' := by
    intro c hc
    unfold tupleText at hc
    rw [← List.cons_append, ← List.append_assoc, List.getLast?_concat] at hc
    exact (Option.some.inj hc).symm
  refine ⟨?_, ⟨?_, ?_⟩, ?_, ?_⟩
  · cases marked <;> exact List.cons_ne_nil _ _
  · intro c hc
    cases marked with
    | true =>
      obtain rfl : 't' = c := Option.some.inj hc
      rfl
    | false =>
      obtain rfl : '(' = c := Option.some.inj hc
      rfl
  · intro c hc
    rw [hlast c hc]
    rfl
  · intro c hc
    rw [hlast c hc]
    decide
  · cases marked with
    | true => exact nested_tuple.append hbracketed
    | false => exact hbracketed

end RollupInput.Declaration
