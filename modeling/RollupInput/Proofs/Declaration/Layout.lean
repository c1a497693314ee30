import RollupInput.Proofs.Declaration.Cuts
import RollupInput.Proofs.Declaration.Keyword
import RollupInput.Proofs.Declaration.Suffixes

/-!
# The layout of parameters that are read

What is cut out of the text of a parameter stands in it in one piece each: blanks, the base of the
type, array suffixes, words, blanks. With another base in its place the text is cut in the same way.
-/

namespace RollupInput.Declaration

open Abi

/-- Whether a text has only blanks, digits and pluses, as what stands between the brackets of an array
suffix that is read. -/
def IsSizeText (size : List Char) : Prop :=
  ∀ c ∈ size, Text.isBlank c = true ∨ c = '+' ∨ Text.isDigit c = true

/-- A text that can be the base of a written type: it has no blank at its ends and outside of
brackets, and does not end with a suffix. -/
structure IsBase (base : List Char) : Prop where
  /-- It is not empty. -/
  nonempty : base ≠ []
  /-- It has no blank at its ends. -/
  tight : Text.IsTight base
  /-- It does not end with a suffix. -/
  last : ∀ c ∈ base.getLast?, c ≠ ']'
  /-- Outside of brackets it has neither blanks nor commas. -/
  nested : Nested (fun c => Text.isBlank c = false ∧ c ≠ ',') base

/-- What stands around the base of the type of a parameter. -/
structure Frame where
  /-- The blanks in front. -/
  lead : List Char
  /-- The texts between the brackets of the array suffixes. -/
  sizes : List (List Char)
  /-- What follows the type, up to the last word. -/
  behind : List Char
  /-- The blanks behind all else. -/
  trail : List Char

/-- The text of a parameter with a given base. -/
def Frame.text (f : Frame) (base : List Char) : List Char :=
  f.lead ++ ((base ++ suffixText f.sizes ++ f.behind) ++ f.trail)

/-- Whether what stands around a base is read, with a given name. -/
structure Frame.IsRead (f : Frame) (name : Option (List Char)) : Prop where
  /-- Blanks stand in front. -/
  lead : Text.IsGap f.lead
  /-- Blanks stand behind all else. -/
  trail : Text.IsGap f.trail
  /-- The brackets of the suffixes have sizes between them, or blanks. -/
  sizes : ∀ size ∈ f.sizes, IsSizeText size
  /-- What follows the type starts with a blank. -/
  starts : Text.EndsWord f.behind
  /-- What follows the type ends with a word. -/
  ends : ∀ c ∈ f.behind.getLast?, Text.isBlank c = false
  /-- The name is read from what follows the type. -/
  name : ∀ text, readName text f.behind = .ok name

/-! ## Sizes -/

/-- A size that is read has only blanks, digits and a plus. -/
theorem isSizeText_of_readSize {size : List Char} {s : Option Nat} (h : readSize size = .ok s) :
    IsSizeText size := by
  obtain ⟨before, after, hbefore, hafter, hsize⟩ := Text.exists_gaps size
  have hcore : ∀ c ∈ Text.trim size, c = '+' ∨ Text.isDigit c = true := by
    unfold readSize at h
    dsimp only at h
    split at h
    · rename_i hempty
      rw [List.isEmpty_iff.mp hempty]
      intro c hc
      cases hc
    · split at h
      · rename_i n hn
        have hdigits : ∀ c ∈ (Text.after? ['+'] (Text.trim size)).getD (Text.trim size),
            Text.isDigit c = true := by
          unfold Text.readDecimal? at hn
          split at hn
          · cases hn
          · rename_i hall
            rw [Bool.or_eq_true, not_or, Bool.not_eq_true', Bool.not_eq_false] at hall
            exact List.all_eq_true.mp hall.2
        intro c hc
        by_cases hplus : ['+'].isPrefixOf (Text.trim size) = true
        · obtain ⟨digits, htrim⟩ := List.isPrefixOf_iff_prefix.mp hplus
          unfold Text.after? at hdigits
          rw [if_pos hplus, ← htrim] at hdigits
          rw [← htrim] at hc
          rcases List.mem_append.mp hc with hc | hc
          · exact .inl (List.mem_singleton.mp hc)
          · exact .inr (hdigits c hc)
        · unfold Text.after? at hdigits
          rw [if_neg hplus] at hdigits
          exact .inr (hdigits c hc)
      · cases h
  intro c hc
  rw [hsize] at hc
  rcases List.mem_append.mp hc with hc | hc
  · exact .inl (hbefore c hc)
  · rcases List.mem_append.mp hc with hc | hc
    · exact .inr (hcore c hc)
    · exact .inl (hafter c hc)

/-- The suffixes that are put on a type have sizes between their brackets, or blanks. -/
theorem isSizeText_of_withSuffixes {sizes : List (List Char)} {t type : AbiType}
    (h : withSuffixes t sizes = .ok type) : ∀ size ∈ sizes, IsSizeText size := by
  induction sizes generalizing t with
  | nil =>
    intro size hmem
    cases hmem
  | cons first rest ih =>
    rw [withSuffixes] at h
    cases hsize : readSize first with
    | error e =>
      rw [hsize] at h
      cases h
    | ok s =>
      rw [hsize] at h
      exact List.forall_mem_cons.mpr ⟨isSizeText_of_readSize hsize, ih h⟩

namespace IsSizeText

variable {size : List Char}

/-- A size has no bracket. -/
theorem isPlain (h : IsSizeText size) {c : Char} (hc : c ∈ size) :
    IsPlain c ∧ c ≠ ')' ∧ c ≠ '[' := by
  rcases h c hc with hblank | rfl | hdigit
  · have hplain := isPlain_of_isBlank hblank
    exact ⟨hplain.1, hplain.2.2.2.1, hplain.2.2.2.2.1⟩
  · exact ⟨⟨rfl, rfl⟩, by decide, by decide⟩
  · have hplain := isPlain_of_isIdentifierChar (Text.isIdentifierChar_of_isDigit hdigit)
    exact ⟨hplain.1, hplain.2.2.2.2.1, hplain.2.2.2.2.2.1⟩

end IsSizeText

/-- Suffixes are nested. -/
theorem nested_suffixText {sizes : List (List Char)} (h : ∀ size ∈ sizes, IsSizeText size)
    {p : Char → Prop} : Nested p (suffixText sizes) := by
  induction sizes with
  | nil => exact .nil
  | cons size rest ih =>
    obtain ⟨hsize, hrest⟩ := List.forall_mem_cons.mp h
    have hbracketed : Nested p ('[' :: (size ++ [']'])) :=
      .bracketed (.inr ⟨rfl, rfl⟩)
        (.of_forall (fun c hc => (hsize.isPlain hc).1) fun _ _ => trivial)
    exact hbracketed.append (ih hrest)

/-- A size has no keyword. -/
theorem IsSizeText.keywordFree {size : List Char} (h : IsSizeText size) : KeywordFree size := by
  intro hmem
  have hs : 's' ∈ size := Text.mem_of_mem_cutWhere hmem (by decide)
  rcases h 's' hs with hblank | hplus | hdigit
  · cases hblank
  · cases hplus
  · cases hdigit

/-- Suffixes have no keyword, and no word continues into them. -/
theorem keywordFree_suffixText {sizes : List (List Char)} (h : ∀ size ∈ sizes, IsSizeText size) :
    KeywordFree (suffixText sizes) ∧ startsInWord (suffixText sizes) = false := by
  induction sizes with
  | nil => exact ⟨.nil, rfl⟩
  | cons size rest ih =>
    obtain ⟨hsize, hrest⟩ := List.forall_mem_cons.mp h
    have htext : suffixText (size :: rest) = '[' :: (size ++ ']' :: suffixText rest) := by
      unfold suffixText
      rw [List.flatMap_cons, List.cons_append, List.append_assoc, List.singleton_append]
    rw [htext]
    exact ⟨.cons rfl ((KeywordFree.append_cons_iff rfl).mpr ⟨hsize.keywordFree, (ih hrest).1⟩), rfl⟩

/-! ## Words behind a type -/

/-- The modifiers are identifiers other than the keyword. -/
theorem isIdentifier_of_mem_modifiers {word : List Char} (h : word ∈ modifiers) :
    Text.isIdentifier word = true ∧ word ≠ keyword := by
  have hall : ∀ m ∈ modifiers, Text.isIdentifier m = true ∧ m ≠ keyword := by decide
  exact hall word h

/-- The name that is read does not depend on the text that a fault would show. -/
theorem readName_of_ok {text rest : List Char} {name : Option (List Char)}
    (h : readName text rest = .ok name) (other : List Char) : readName other rest = .ok name := by
  unfold readName at h ⊢
  generalize (Text.words rest).filter (!modifiers.contains ·) = ws at h ⊢
  match ws with
  | [] => exact h
  | [word] => exact h
  | _ :: _ :: _ => cases h

/-- Behind a type that is read there are modifiers, and the name if there is one. -/
theorem word_of_readName {text rest : List Char} {name : Option (List Char)}
    (h : readName text rest = .ok name) :
    ∀ word ∈ Text.words rest,
      word ∈ modifiers ∨ (name = some word ∧ Text.isIdentifier word = true) := by
  intro word hword
  by_cases hmodifier : word ∈ modifiers
  · exact .inl hmodifier
  · have hkept : word ∈ (Text.words rest).filter (!modifiers.contains ·) := by
      refine List.mem_filter.mpr ⟨hword, ?_⟩
      rw [Bool.not_eq_true', Bool.eq_false_iff, Ne, List.contains_iff_mem]
      exact hmodifier
    unfold readName at h
    generalize (Text.words rest).filter (!modifiers.contains ·) = ws at h hkept
    match ws with
    | [] => cases hkept
    | [only] =>
      obtain rfl := List.mem_singleton.mp hkept
      dsimp only at h
      split at h
      · rename_i hidentifier
        cases h
        exact .inr ⟨rfl, hidentifier⟩
      · cases h
    | _ :: _ :: _ => cases h

/-- What follows a type that is read has only blanks and characters of identifiers. -/
theorem char_of_readName {text rest : List Char} {name : Option (List Char)}
    (h : readName text rest = .ok name) :
    ∀ c ∈ rest, Text.isBlank c = true ∨ Text.isIdentifierChar c = true := by
  intro c hc
  cases hblank : Text.isBlank c with
  | true => exact .inl rfl
  | false =>
    obtain ⟨word, hword, hmem⟩ := Text.exists_mem_words hc hblank
    refine .inr ?_
    rcases word_of_readName h word hword with hmodifier | ⟨-, hidentifier⟩
    · exact Text.isIdentifierChar_of_isIdentifier
        (isIdentifier_of_mem_modifiers hmodifier).1 c hmem
    · exact Text.isIdentifierChar_of_isIdentifier hidentifier c hmem

/-- The name of a parameter stands behind its type, and is an identifier other than the modifiers. -/
theorem of_readName_some {text rest name : List Char} (h : readName text rest = .ok (some name)) :
    name ∈ Text.words rest ∧ Text.isIdentifier name = true ∧ name ∉ modifiers := by
  unfold readName at h
  split at h
  · cases h
  · rename_i word hwords
    split at h
    · rename_i hidentifier
      cases h
      have hmem : name ∈ (Text.words rest).filter (!modifiers.contains ·) := by
        rw [hwords]
        exact List.mem_cons_self
      obtain ⟨hword, hkept⟩ := List.mem_filter.mp hmem
      refine ⟨hword, hidentifier, fun hmodifier => ?_⟩
      rw [List.contains_iff_mem.mpr hmodifier] at hkept
      cases hkept
    · cases h
  · cases h

/-- Where only blanks stand between identifiers, the runs are cut at the blanks. -/
theorem identifierRuns_eq_cutWhere {cs : List Char}
    (h : ∀ c ∈ cs, Text.isBlank c = true ∨ Text.isIdentifierChar c = true) :
    identifierRuns cs = Text.cutWhere Text.isBlank cs := by
  refine Text.cutWhere_congr fun c hc => ?_
  rcases h c hc with hblank | hidentifier
  · rw [hblank, Bool.not_eq_true', Bool.eq_false_iff]
    intro hidentifier
    rw [Text.isBlank_of_isIdentifierChar hidentifier] at hblank
    cases hblank
  · rw [hidentifier, Text.isBlank_of_isIdentifierChar hidentifier]
    rfl

/-- What follows a type that is read has no keyword exactly if the keyword is not the name. -/
theorem keywordFree_iff_of_readName {text rest : List Char} {name : Option (List Char)}
    (h : readName text rest = .ok name) : KeywordFree rest ↔ name ≠ some keyword := by
  have hruns := identifierRuns_eq_cutWhere (char_of_readName h)
  constructor
  · rintro hfree rfl
    obtain ⟨hword, -, -⟩ := of_readName_some h
    rw [KeywordFree, hruns] at hfree
    exact hfree (List.mem_filter.mp hword).1
  · intro hname hmem
    rw [hruns] at hmem
    have hword : keyword ∈ Text.words rest := List.mem_filter.mpr ⟨hmem, rfl⟩
    rcases word_of_readName h keyword hword with hmodifier | ⟨heq, -⟩
    · exact (isIdentifier_of_mem_modifiers hmodifier).2 rfl
    · exact hname heq

/-! ## What the cuts leave -/

/-- A type and what follows it are the text that is cut, and what follows it starts with a blank. -/
theorem of_cutTypeFrom {depth : Nat} {cs typeText rest : List Char}
    (h : cutTypeFrom depth cs = some (typeText, rest)) :
    cs = typeText ++ rest ∧ Text.EndsWord rest := by
  induction cs generalizing depth typeText with
  | nil =>
    rw [cutTypeFrom] at h
    split at h
    · cases h
      exact ⟨rfl, fun c hc => by cases hc⟩
    · cases h
  | cons c cs ih =>
    have hstep {d : Nat}
        (h : (cutTypeFrom d cs).map (fun p => (c :: p.1, p.2)) = some (typeText, rest)) :
        c :: cs = typeText ++ rest ∧ Text.EndsWord rest := by
      obtain ⟨p, hp, hpair⟩ := Option.map_eq_some_iff.mp h
      cases hpair
      obtain ⟨hcs, hends⟩ := ih hp
      exact ⟨by rw [hcs, List.cons_append], hends⟩
    rw [cutTypeFrom.eq_def] at h
    dsimp only at h
    split at h
    · exact hstep h
    · split at h
      · split at h
        · cases h
        · exact hstep h
      · split at h
        · rename_i hblank
          cases h
          rw [Bool.and_eq_true] at hblank
          refine ⟨rfl, fun x hx => ?_⟩
          obtain rfl := Option.some.inj hx
          exact hblank.1
        · exact hstep h

/-- Inside of brackets a type does not end. -/
theorem ne_nil_of_cutTypeFrom {depth : Nat} {cs typeText rest : List Char}
    (h : cutTypeFrom (depth + 1) cs = some (typeText, rest)) : typeText ≠ [] := by
  rintro rfl
  cases cs with
  | nil => cases h
  | cons c cs =>
    have hstep {d : Nat}
        (h : (cutTypeFrom d cs).map (fun p => (c :: p.1, p.2)) = some ([], rest)) : False := by
      obtain ⟨p, -, hpair⟩ := Option.map_eq_some_iff.mp h
      cases hpair
    rw [cutTypeFrom.eq_def] at h
    dsimp only at h
    split at h
    · exact hstep h
    · split at h
      · exact hstep h
      · split at h
        · rename_i hblank
          rw [Bool.and_eq_true, beq_iff_eq] at hblank
          cases hblank.2
        · exact hstep h

/-- No blank stands in a type in front of nested text, because the type would end there. -/
theorem not_blank_of_cutTypeFrom {depth : Nat} {front back rest : List Char} {b : Char}
    (hback : Nested (fun _ => True) back)
    (h : cutTypeFrom depth (front ++ b :: (back ++ rest)) = some (front ++ b :: back, rest)) :
    Text.isBlank b = false := by
  induction front generalizing depth with
  | nil =>
    rw [Bool.eq_false_iff]
    intro hb
    have hplain := isPlain_of_isBlank hb
    have hopen : ¬(b == '(' || b == '[') = true := by
      rw [Bool.or_eq_true, beq_iff_eq, beq_iff_eq]
      exact fun hor => hor.elim hplain.2.2.1 hplain.2.2.2.2.1
    have hclose : ¬(b == ')' || b == ']') = true := by
      rw [Bool.or_eq_true, beq_iff_eq, beq_iff_eq]
      exact fun hor => hor.elim hplain.2.2.2.1 hplain.2.2.2.2.2
    rw [List.nil_append, cutTypeFrom.eq_def] at h
    dsimp only at h
    rw [if_neg hopen, if_neg hclose, hb, Bool.true_and] at h
    cases depth with
    | zero => cases h
    | succ depth =>
      have hdepth : ¬(depth + 1 == 0) = true := Bool.false_ne_true
      rw [if_neg hdepth, cutTypeFrom_of_nested hback (fun hd => by cases hd), Option.map_map] at h
      obtain ⟨p, hp, hpair⟩ := Option.map_eq_some_iff.mp h
      obtain ⟨htype, hrest⟩ := Prod.mk.inj hpair
      dsimp only [Function.comp] at htype hrest
      refine ne_nil_of_cutTypeFrom hp ?_
      exact List.append_cancel_left ((List.cons.inj htype).2.trans (List.append_nil back).symm)
  | cons c front ih =>
    have hstep {d : Nat}
        (h : (cutTypeFrom d (front ++ b :: (back ++ rest))).map (fun p => (c :: p.1, p.2)) =
          some (c :: front ++ b :: back, rest)) : Text.isBlank b = false := by
      obtain ⟨p, hp, hpair⟩ := Option.map_eq_some_iff.mp h
      obtain ⟨htype, hrest⟩ := Prod.mk.inj hpair
      refine ih (hp.trans (congrArg some (Prod.ext (List.cons.inj htype).2 hrest)))
    rw [List.cons_append, cutTypeFrom.eq_def] at h
    dsimp only at h
    split at h
    · exact hstep h
    · split at h
      · split at h
        · cases h
        · exact hstep h
      · split at h
        · cases h
        · exact hstep h

/-- Suffixes that are taken off are what follows the base, and the base does not end with a suffix
that has no parenthesis in it. -/
theorem of_suffixesBackward {found : List (List Char)} {cs : List Char}
    {p : List Char × List (List Char)} (h : suffixesBackward found cs = some p) :
    ∃ sizes, p.2 = sizes ++ found ∧ cs.reverse = p.1.reverse ++ suffixText sizes ∧
      ∀ rest, p.1 = ']' :: rest → ')' ∈ rest.takeWhile (· != '[') := by
  fun_induction suffixesBackward found cs with
  | case1 => cases h
  | case2 found rest size x base hbase hsize =>
    cases h
    refine ⟨[], rfl, (List.append_nil _).symm, fun other hother => ?_⟩
    cases hother
    exact List.contains_iff_mem.mp hsize
  | case3 found rest size x base hbase hsize ih =>
    obtain ⟨sizes, hsizes, htext, hlast⟩ := ih h
    have hx : x = '[' := by
      have hnot := List.head?_dropWhile_not (· != '[') rest
      rw [hbase] at hnot
      exact bne_eq_false_iff_eq.mp (Bool.not_eq_true _ ▸ by simpa using hnot)
    have hrest : rest = size ++ '[' :: base := by
      rw [← hx, ← hbase]
      exact List.takeWhile_append_dropWhile.symm
    refine ⟨sizes ++ [size.reverse], ?_, ?_, hlast⟩
    · rw [hsizes, List.append_assoc]
      rfl
    · have hmore : suffixText (sizes ++ [size.reverse]) =
          suffixText sizes ++ '[' :: (size.reverse ++ [']']) := by
        unfold suffixText
        rw [List.flatMap_append, List.flatMap_singleton]
      rw [hmore, ← List.append_assoc, ← htext, hrest]
      simp only [List.reverse_cons, List.reverse_append, List.append_assoc, List.cons_append,
        List.nil_append]
  | case4 found cs hnot =>
    cases h
    refine ⟨[], rfl, (List.append_nil _).symm, fun rest hrest => ?_⟩
    exact absurd hrest (hnot rest)

/-! ## Frames -/

/-- The text of a parameter that is cut, with sizes between the brackets of its suffixes, is the base
in a frame. The type that is cut out of it ends where the suffixes end, and the base does not end
with a suffix that has no parenthesis in it. -/
theorem exists_frame {written : List Char} {c : Cut} (hcut : cutParam written = .ok c)
    (hsizes : ∀ size ∈ c.suffixes, IsSizeText size) :
    ∃ f : Frame, f.IsRead c.name ∧ f.sizes = c.suffixes ∧ written = f.text c.base ∧
      cutType? (c.base ++ suffixText c.suffixes ++ f.behind) =
        some (c.base ++ suffixText c.suffixes, f.behind) ∧
      ∀ rest, c.base.reverse = ']' :: rest → ')' ∈ rest.takeWhile (· != '[') := by
  obtain ⟨typeText, behind, htype, hname, hsuffixes⟩ := cuts_of_cutParam hcut
  obtain ⟨htext, hstarts⟩ := of_cutTypeFrom htype
  obtain ⟨p, hp, hpair⟩ := Option.map_eq_some_iff.mp hsuffixes
  obtain ⟨sizes, hown, htypeText, hlast⟩ := of_suffixesBackward hp
  obtain ⟨hbase, hfound⟩ := Prod.mk.inj hpair
  rw [List.reverse_reverse] at htypeText
  obtain rfl : sizes = c.suffixes := by rw [← hfound, hown, List.append_nil]
  have htrim := Text.isTight_trim written
  have htight : Text.IsTight p.1.reverse := by
    constructor
    · intro x hx
      refine htrim.1 x ?_
      rw [htext, htypeText, List.append_assoc, List.head?_append, hx]
      rfl
    · intro b hb
      obtain ⟨front, hfront⟩ := List.getLast?_eq_some_iff.mp hb
      refine @not_blank_of_cutTypeFrom 0 front _ behind b (nested_suffixText hsizes) ?_
      have hcut : cutTypeFrom 0 (typeText ++ behind) = some (typeText, behind) := htext ▸ htype
      rw [htypeText, hfront] at hcut
      simpa using hcut
  have hraw : p.1.reverse = c.base := by rw [← hbase, Text.trim_of_isTight htight]
  rw [hraw] at htypeText
  obtain ⟨lead, trail, hlead, htrail, hwritten⟩ := Text.exists_gaps written
  refine ⟨⟨lead, c.suffixes, behind, trail⟩,
    ⟨hlead, htrail, hsizes, hstarts, ?_, readName_of_ok hname⟩, rfl, ?_, ?_, ?_⟩
  · intro x hx
    refine htrim.2 x ?_
    rw [htext, List.getLast?_append, hx]
    rfl
  · rw [htext, htypeText] at hwritten
    exact hwritten
  · rw [← htypeText, ← htext]
    exact htype
  · intro rest hrest
    rw [← hraw, List.reverse_reverse] at hrest
    exact hlast rest hrest

/-- A property of last characters is kept when texts that have it are put behind each other. -/
theorem getLast?_append_flatMap {α : Type} {p : Char → Prop} {base : List Char} {items : List α}
    {f : α → List Char} (hbase : ∀ c ∈ base.getLast?, p c)
    (hitems : ∀ x ∈ items, ∀ c ∈ (f x).getLast?, p c) :
    ∀ c ∈ (base ++ items.flatMap f).getLast?, p c := by
  induction items generalizing base with
  | nil =>
    rw [List.flatMap_nil, List.append_nil]
    exact hbase
  | cons x rest ih =>
    rw [List.flatMap_cons, ← List.append_assoc]
    refine ih ?_ fun y hy => hitems y (List.mem_cons_of_mem x hy)
    intro c hc
    rw [List.getLast?_append] at hc
    cases hlast : (f x).getLast? with
    | none =>
      rw [hlast] at hc
      exact hbase c hc
    | some d =>
      rw [hlast] at hc
      obtain rfl : d = c := Option.some.inj hc
      exact hitems x List.mem_cons_self d hlast

namespace Frame

variable {f : Frame} {name : Option (List Char)} {base : List Char}

/-- A type in a frame is nested, with neither blanks nor commas outside of brackets. -/
theorem nested_type (h : f.IsRead name) (hbase : IsBase base) :
    Nested (fun c => Text.isBlank c = false ∧ c ≠ ',') (base ++ suffixText f.sizes) :=
  hbase.nested.append (nested_suffixText h.sizes)

/-- Without the blanks around it, a text is the type and what follows it. -/
theorem trim_text (h : f.IsRead name) (hbase : IsBase base) :
    Text.trim (f.text base) = base ++ suffixText f.sizes ++ f.behind := by
  refine Text.trim_of_gaps h.lead h.trail ⟨?_, ?_⟩
  · intro c hc
    obtain ⟨first, rest, rfl⟩ := List.exists_cons_of_ne_nil hbase.nonempty
    exact hbase.tight.1 c hc
  · have htype : ∀ c ∈ (base ++ suffixText f.sizes).getLast?, Text.isBlank c = false := by
      refine getLast?_append_flatMap hbase.tight.2 ?_
      intro size _ c hc
      rw [← List.cons_append, List.getLast?_concat] at hc
      obtain rfl : ']' = c := Option.some.inj hc
      rfl
    intro c hc
    rw [List.getLast?_append] at hc
    cases hbehind : f.behind.getLast? with
    | none =>
      rw [hbehind] at hc
      exact htype c hc
    | some d =>
      rw [hbehind] at hc
      obtain rfl : d = c := Option.some.inj hc
      exact h.ends d hbehind

/-- The text of a parameter is not only made of blanks. -/
theorem trim_text_ne_nil (h : f.IsRead name) (hbase : IsBase base) :
    Text.trim (f.text base) ≠ [] := by
  rw [trim_text h hbase, List.append_assoc]
  exact List.append_ne_nil_of_left_ne_nil hbase.nonempty _

/-- A base in a frame is cut out of it. -/
theorem cutParam_text (h : f.IsRead name) (hbase : IsBase base) :
    cutParam (f.text base) = .ok ⟨name, base, f.sizes⟩ := by
  have hempty : ¬(Text.trim (f.text base)).isEmpty = true := by
    rw [List.isEmpty_iff]
    exact trim_text_ne_nil h hbase
  have htype : cutType? (Text.trim (f.text base)) =
      some (base ++ suffixText f.sizes, f.behind) := by
    rw [trim_text h hbase]
    exact cutType_of_nested ((nested_type h hbase).mono fun _ hc => hc.1) h.starts
  have hsuffixes : cutSuffixes? (base ++ suffixText f.sizes) = some (base, f.sizes) := by
    unfold cutSuffixes?
    rw [suffixesBackward_suffixText (fun size hsize c hc => ((h.sizes size hsize).isPlain hc).2)
      hbase.last, Option.map_some, List.reverse_reverse, Text.trim_of_isTight hbase.tight,
      List.append_nil]
  unfold cutParam
  dsimp only
  rw [if_neg hempty, htype]
  dsimp only
  rw [h.name, hsuffixes]

/-- The text of a parameter is nested and holds no comma outside of brackets. -/
theorem nested_text (h : f.IsRead name) (hbase : IsBase base) : Nested (· ≠ ',') (f.text base) := by
  have hgap {gap : List Char} (hg : Text.IsGap gap) : Nested (· ≠ ',') gap :=
    .of_forall (fun c hc => (isPlain_of_isBlank (hg c hc)).1) fun c hc =>
      (isPlain_of_isBlank (hg c hc)).2.1
  have hbehind : ∀ c ∈ f.behind, IsPlain c ∧ c ≠ ',' := by
    intro c hc
    rcases char_of_readName (h.name []) c hc with hblank | hidentifier
    · exact ⟨(isPlain_of_isBlank hblank).1, (isPlain_of_isBlank hblank).2.1⟩
    · have hplain := isPlain_of_isIdentifierChar hidentifier
      exact ⟨hplain.1, hplain.2.1⟩
  have htype : Nested (· ≠ ',') (base ++ suffixText f.sizes) :=
    (nested_type h hbase).mono fun _ hc => hc.2
  have hwords : Nested (· ≠ ',') f.behind :=
    .of_forall (fun c hc => (hbehind c hc).1) fun c hc => (hbehind c hc).2
  exact (hgap h.lead).append ((htype.append hwords).append (hgap h.trail))

/-- The text of a parameter has no keyword if the base has none and the name is not the keyword. -/
theorem keywordFree_text (h : f.IsRead name) (hname : name ≠ some keyword)
    (hbase : KeywordFree base) : KeywordFree (f.text base) := by
  have hbehind := (keywordFree_iff_of_readName (h.name [])).mpr hname
  obtain ⟨hsuffixes, hstart⟩ := keywordFree_suffixText h.sizes
  obtain ⟨htrail, htrailStart⟩ := keywordFree_of_isGap h.trail
  have htype := hbase.append hsuffixes hstart
  have hcore := htype.append hbehind (startsInWord_of_endsWord h.starts)
  exact .gap_append h.lead (hcore.append htrail htrailStart)

/-- The name of a parameter whose text has no keyword is not the keyword. -/
theorem name_ne_keyword (h : f.IsRead name) (hfree : KeywordFree (f.text base)) :
    name ≠ some keyword := by
  obtain ⟨-, htrailStart⟩ := keywordFree_of_isGap h.trail
  have htext : f.text base =
      ((f.lead ++ (base ++ suffixText f.sizes)) ++ f.behind) ++ f.trail := by
    unfold text
    simp only [List.append_assoc]
  rw [htext] at hfree
  have hcore := ((KeywordFree.append_iff htrailStart).mp hfree).1
  have hbehind := ((KeywordFree.append_iff (startsInWord_of_endsWord h.starts)).mp hcore).2
  exact (keywordFree_iff_of_readName (h.name [])).mp hbehind

end Frame

end RollupInput.Declaration
