import RollupInput.Text
import Mathlib.Data.List.TakeWhile

/-!
# Blanks around words

Trimming takes off exactly the gaps around a text that neither starts nor ends with a blank, and
the words of a text are what stands between its gaps. Characters of identifiers and digits are no
blanks. Decimal texts read back.
-/

namespace RollupInput.Text

/-- A run of blanks, possibly empty. -/
def IsGap (cs : List Char) : Prop := ∀ c ∈ cs, isBlank c = true

instance (cs : List Char) : Decidable (IsGap cs) :=
  decidable_of_iff (cs.all isBlank = true) List.all_eq_true

/-- A text that neither starts nor ends with a blank. -/
def IsTight (cs : List Char) : Prop :=
  (∀ c ∈ cs.head?, isBlank c = false) ∧ ∀ c ∈ cs.getLast?, isBlank c = false

/-- A text without any blank that is not empty. -/
def IsWord (cs : List Char) : Prop := cs ≠ [] ∧ ∀ c ∈ cs, isBlank c = false

/-- A text that is empty or starts with a blank, so that no word in front of it goes on. -/
def EndsWord (cs : List Char) : Prop := ∀ c ∈ cs.head?, isBlank c = true

/-- The empty run of blanks. -/
theorem isGap_nil : IsGap [] := by
  intro c hc
  cases hc

/-- A text without blanks is tight. -/
theorem isTight_of_forall {cs : List Char} (h : ∀ c ∈ cs, isBlank c = false) : IsTight cs :=
  ⟨fun c hc => h c (List.mem_of_mem_head? hc), fun c hc => h c (List.mem_of_mem_getLast? hc)⟩

/-- The codes of the characters of identifiers. -/
theorem toNat_of_isIdentifierChar {c : Char} (h : isIdentifierChar c = true) :
    c.toNat = 36 ∨ c.toNat = 95 ∨ (48 ≤ c.toNat ∧ c.toNat ≤ 57) ∨ (65 ≤ c.toNat ∧ c.toNat ≤ 90) ∨
      (97 ≤ c.toNat ∧ c.toNat ≤ 122) := by
  simp only [isIdentifierChar, isIdentifierStart, isLetter, isDigit, Bool.or_eq_true,
    Bool.and_eq_true, decide_eq_true_eq, beq_iff_eq, Char.le_def, UInt32.le_iff_toNat_le,
    Char.toNat_val] at h
  have hletters : 'a'.toNat = 97 ∧ 'z'.toNat = 122 ∧ 'A'.toNat = 65 ∧ 'Z'.toNat = 90 ∧
      '0'.toNat = 48 ∧ '9'.toNat = 57 := by decide
  rcases h with ((h | rfl) | rfl) | h
  · omega
  · decide
  · decide
  · omega

/-- A character of identifiers is no blank. -/
theorem isBlank_of_isIdentifierChar {c : Char} (h : isIdentifierChar c = true) :
    isBlank c = false := by
  have hcode := toNat_of_isIdentifierChar h
  unfold isBlank
  simp only [Bool.or_eq_false_iff, Bool.and_eq_false_iff, decide_eq_false_iff_not,
    beq_eq_false_iff_ne]
  omega

/-- A digit may stand in an identifier. -/
theorem isIdentifierChar_of_isDigit {c : Char} (h : isDigit c = true) :
    isIdentifierChar c = true := by
  unfold isIdentifierChar
  rw [h, Bool.or_true]

/-- An identifier is made of characters of identifiers. -/
theorem isIdentifierChar_of_isIdentifier {cs : List Char} (h : isIdentifier cs = true) :
    ∀ c ∈ cs, isIdentifierChar c = true := by
  cases cs with
  | nil => cases h
  | cons first rest =>
    rw [isIdentifier, Bool.and_eq_true, List.all_eq_true] at h
    intro c hc
    rcases List.mem_cons.mp hc with rfl | hc
    · unfold isIdentifierChar
      rw [h.1, Bool.true_or]
    · exact h.2 c hc

/-- An identifier is a word. -/
theorem isWord_of_isIdentifier {cs : List Char} (h : isIdentifier cs = true) : IsWord cs := by
  refine ⟨?_, fun c hc => isBlank_of_isIdentifierChar (isIdentifierChar_of_isIdentifier h c hc)⟩
  rintro rfl
  cases h

/-- Trimming takes the gaps around a tight text off. -/
theorem trim_of_gaps {before core after : List Char} (hbefore : IsGap before)
    (hafter : IsGap after) (hcore : IsTight core) : trim (before ++ (core ++ after)) = core := by
  unfold trim trimEnd trimStart
  rw [List.dropWhile_append_of_pos hbefore]
  cases core with
  | nil =>
    rw [List.nil_append, List.dropWhile_eq_nil_iff.mpr hafter]
    rfl
  | cons c cs =>
    have hfirst : ¬isBlank c = true := by
      rw [hcore.1 c rfl]
      exact Bool.false_ne_true
    have hreverse : IsGap after.reverse := fun x hx => hafter x (List.mem_reverse.mp hx)
    have hlast : List.dropWhile isBlank (c :: cs).reverse = (c :: cs).reverse := by
      cases hr : (c :: cs).reverse with
      | nil => rfl
      | cons x xs =>
        have hx : isBlank x = false := by
          refine hcore.2 x ?_
          rw [← List.head?_reverse, hr]
          rfl
        exact List.dropWhile_cons_of_neg (by rw [hx]; exact Bool.false_ne_true)
    rw [List.cons_append, List.dropWhile_cons_of_neg hfirst, ← List.cons_append,
      List.reverse_append, List.dropWhile_append_of_pos hreverse, hlast, List.reverse_reverse]

/-- Trimming leaves a tight text as it is. -/
theorem trim_of_isTight {cs : List Char} (h : IsTight cs) : trim cs = cs := by
  have htrim := trim_of_gaps isGap_nil isGap_nil h
  rwa [List.nil_append, List.append_nil] at htrim

/-- Nothing is left of a gap. -/
theorem trim_of_isGap {cs : List Char} (h : IsGap cs) : trim cs = [] := by
  have htight : IsTight [] := isTight_of_forall (by intro c hc; cases hc)
  have htrim := trim_of_gaps h isGap_nil htight
  rwa [List.nil_append, List.append_nil] at htrim

/-- Only of a gap nothing is left. -/
theorem isGap_of_trim {cs : List Char} (h : trim cs = []) : IsGap cs := by
  unfold trim trimEnd trimStart at h
  rw [List.reverse_eq_nil_iff, List.dropWhile_eq_nil_iff] at h
  intro c hc
  rw [← List.takeWhile_append_dropWhile (p := isBlank) (l := cs)] at hc
  rcases List.mem_append.mp hc with hc | hc
  · exact List.mem_takeWhile_imp hc
  · exact h c (List.mem_reverse.mpr hc)

/-- What is left without the leading blanks does not start with one. -/
theorem isBlank_of_head?_dropWhile {cs : List Char} {c : Char}
    (h : (cs.dropWhile isBlank).head? = some c) : isBlank c = false := by
  have hnot := List.head?_dropWhile_not isBlank cs
  rw [h] at hnot
  exact hnot

/-- Without the leading blanks, a text is the trimmed one with a gap behind it. -/
theorem exists_gap_behind (cs : List Char) :
    ∃ after, IsGap after ∧ trimStart cs = trim cs ++ after := by
  refine ⟨((trimStart cs).reverse.takeWhile isBlank).reverse, ?_, ?_⟩
  · intro c hc
    exact List.mem_takeWhile_imp (List.mem_reverse.mp hc)
  · unfold trim trimEnd
    rw [← List.reverse_append, List.takeWhile_append_dropWhile, List.reverse_reverse]

/-- A text is the trimmed one between gaps. -/
theorem exists_gaps (cs : List Char) :
    ∃ before after, IsGap before ∧ IsGap after ∧ cs = before ++ (trim cs ++ after) := by
  obtain ⟨after, hafter, hstart⟩ := exists_gap_behind cs
  refine ⟨cs.takeWhile isBlank, after, fun c hc => List.mem_takeWhile_imp hc, hafter, ?_⟩
  rw [← hstart]
  exact List.takeWhile_append_dropWhile.symm

/-- A trimmed text neither starts nor ends with a blank. -/
theorem isTight_trim (cs : List Char) : IsTight (trim cs) := by
  constructor
  · intro c hc
    obtain ⟨after, -, hstart⟩ := exists_gap_behind cs
    refine @isBlank_of_head?_dropWhile cs c ?_
    obtain ⟨rest, hrest⟩ : ∃ rest, trim cs = c :: rest := List.head?_eq_some_iff.mp hc
    have hcons : cs.dropWhile isBlank = c :: (rest ++ after) := by
      rw [hrest] at hstart
      exact hstart
    rw [hcons, List.head?_cons]
  · intro c hc
    have hlast : (trim cs).getLast? = ((trimStart cs).reverse.dropWhile isBlank).head? := by
      unfold trim trimEnd
      rw [List.getLast?_reverse]
    rw [hlast] at hc
    exact isBlank_of_head?_dropWhile hc

/-- Trimming twice changes nothing more. -/
theorem trim_trim (cs : List Char) : trim (trim cs) = trim cs := trim_of_isTight (isTight_trim cs)

/-- A word is not blank, and trimming leaves it as it is. -/
theorem nonBlank?_of_isWord {s : String} (h : IsWord s.toList) : nonBlank? s = some s := by
  have htrimmed : trimmed s = s := by
    rw [trimmed, trim_of_isTight (isTight_of_forall h.2), String.ofList_toList]
  have hne : ¬s.isEmpty = true := by
    intro hempty
    rw [String.isEmpty_iff.mp hempty] at h
    exact h.1 rfl
  unfold nonBlank?
  dsimp only
  rw [htrimmed, if_neg hne]

/-- A text with a character that is no blank is not blank. -/
theorem isSome_nonBlank?_of_mem {s : String} {c : Char} (hc : c ∈ s.toList)
    (hblank : isBlank c = false) : (nonBlank? s).isSome = true := by
  unfold nonBlank?
  dsimp only
  split
  · next hempty =>
    have htrim : trim s.toList = [] := by
      have htoList := congrArg String.toList (String.isEmpty_iff.mp hempty)
      rwa [trimmed, String.toList_ofList] at htoList
    rw [isGap_of_trim htrim c hc] at hblank
    cases hblank
  · rfl

/-- The characters of a text stand in what it is joined into. -/
theorem mem_join {separator : List Char} {parts : List (List Char)} {part : List Char}
    (hpart : part ∈ parts) {c : Char} (hc : c ∈ part) : c ∈ join separator parts := by
  induction parts with
  | nil => cases hpart
  | cons first rest ih =>
    cases rest with
    | nil =>
      rw [List.mem_singleton.mp hpart] at hc
      exact hc
    | cons second rest =>
      rw [join]
      rcases List.mem_cons.mp hpart with rfl | hpart
      · exact List.mem_append_left _ hc
      · exact List.mem_append_right _ (List.mem_append_right _ (ih hpart))

/-- Cutting never gives nothing at all. -/
theorem cutWhere_ne_nil (p : Char → Bool) (cs : List Char) : cutWhere p cs ≠ [] := by
  cases cs with
  | nil => exact List.cons_ne_nil _ _
  | cons c cs =>
    rw [cutWhere]
    split
    · exact List.cons_ne_nil _ _
    · split
      · exact List.cons_ne_nil _ _
      · exact List.cons_ne_nil _ _

/-- A text is cut apart at a character that is cut out. -/
theorem cutWhere_append_cons {p : Char → Bool} {c : Char} (hc : p c = true)
    (front back : List Char) :
    cutWhere p (front ++ c :: back) = cutWhere p front ++ cutWhere p back := by
  induction front with
  | nil =>
    have hnil : cutWhere p [] = [[]] := rfl
    rw [hnil, List.nil_append, cutWhere, if_pos hc, List.singleton_append]
  | cons x front ih =>
    rw [List.cons_append, cutWhere, cutWhere, ih]
    by_cases hx : p x = true
    · rw [if_pos hx, if_pos hx, List.cons_append]
    · rw [if_neg hx, if_neg hx]
      cases hfront : cutWhere p front with
      | nil => exact absurd hfront (cutWhere_ne_nil p front)
      | cons part parts => rfl

/-- A text of which nothing is cut out stays whole. -/
theorem cutWhere_of_forall {p : Char → Bool} {cs : List Char} (h : ∀ c ∈ cs, p c = false) :
    cutWhere p cs = [cs] := by
  induction cs with
  | nil => rfl
  | cons c cs ih =>
    have hc : ¬p c = true := by
      rw [h c List.mem_cons_self]
      exact Bool.false_ne_true
    rw [cutWhere, if_neg hc, ih fun x hx => h x (List.mem_cons_of_mem c hx)]

/-- Texts are cut alike where the characters that are cut out are the same. -/
theorem cutWhere_congr {p q : Char → Bool} {cs : List Char} (h : ∀ c ∈ cs, p c = q c) :
    cutWhere p cs = cutWhere q cs := by
  induction cs with
  | nil => rfl
  | cons c cs ih =>
    obtain ⟨hc, hcs⟩ := List.forall_mem_cons.mp h
    rw [cutWhere, cutWhere, hc, ih hcs]

/-- A character that is not cut out stands in one of the parts. -/
theorem exists_mem_cutWhere {p : Char → Bool} {cs : List Char} {c : Char} (hc : c ∈ cs)
    (hp : p c = false) : ∃ part ∈ cutWhere p cs, c ∈ part := by
  induction cs with
  | nil => cases hc
  | cons x cs ih =>
    rw [cutWhere]
    rcases List.mem_cons.mp hc with rfl | hc
    · rw [if_neg (by rw [hp]; exact Bool.false_ne_true)]
      cases cutWhere p cs with
      | nil => exact ⟨[c], List.mem_cons_self, List.mem_cons_self⟩
      | cons w ws => exact ⟨c :: w, List.mem_cons_self, List.mem_cons_self⟩
    · obtain ⟨part, hpart, hmem⟩ := ih hc
      by_cases hx : p x = true
      · rw [if_pos hx]
        exact ⟨part, List.mem_cons_of_mem _ hpart, hmem⟩
      · rw [if_neg hx]
        cases hcut : cutWhere p cs with
        | nil => exact absurd hcut (cutWhere_ne_nil p cs)
        | cons w ws =>
          rw [hcut] at hpart
          rcases List.mem_cons.mp hpart with rfl | hpart
          · exact ⟨x :: part, List.mem_cons_self, List.mem_cons_of_mem x hmem⟩
          · exact ⟨part, List.mem_cons_of_mem _ hpart, hmem⟩

/-- The parts of a text have only characters of the text. -/
theorem mem_of_mem_cutWhere {p : Char → Bool} {cs part : List Char} (hpart : part ∈ cutWhere p cs)
    {c : Char} (hc : c ∈ part) : c ∈ cs := by
  induction cs generalizing part with
  | nil =>
    rw [List.mem_singleton.mp hpart] at hc
    exact hc
  | cons x cs ih =>
    rw [cutWhere] at hpart
    by_cases hx : p x = true
    · rw [if_pos hx] at hpart
      rcases List.mem_cons.mp hpart with rfl | hpart
      · cases hc
      · exact List.mem_cons_of_mem x (ih hpart hc)
    · rw [if_neg hx] at hpart
      cases hcut : cutWhere p cs with
      | nil => exact absurd hcut (cutWhere_ne_nil p cs)
      | cons w ws =>
        rw [hcut] at hpart ih
        rcases List.mem_cons.mp hpart with rfl | hpart
        · rcases List.mem_cons.mp hc with rfl | hc
          · exact List.mem_cons_self
          · exact List.mem_cons_of_mem x (ih List.mem_cons_self hc)
        · exact List.mem_cons_of_mem x (ih (List.mem_cons_of_mem w hpart) hc)

/-- A character that is no blank stands in one of the words. -/
theorem exists_mem_words {cs : List Char} {c : Char} (hc : c ∈ cs) (hblank : isBlank c = false) :
    ∃ word ∈ words cs, c ∈ word := by
  obtain ⟨word, hword, hmem⟩ := exists_mem_cutWhere hc hblank
  refine ⟨word, List.mem_filter.mpr ⟨hword, ?_⟩, hmem⟩
  cases word with
  | nil => cases hmem
  | cons x xs => rfl

/-- A gap in front adds no words. -/
theorem words_append_of_isGap {gap : List Char} (h : IsGap gap) (cs : List Char) :
    words (gap ++ cs) = words cs := by
  induction gap with
  | nil => rfl
  | cons c gap ih =>
    have hrest : IsGap gap := fun x hx => h x (List.mem_cons_of_mem c hx)
    rw [← ih hrest]
    unfold words
    rw [List.cons_append, cutWhere, if_pos (h c List.mem_cons_self)]
    rfl

/-- A word in front that ends there is the first word. -/
theorem words_append_of_isWord {word rest : List Char} (hword : IsWord word)
    (hrest : EndsWord rest) : words (word ++ rest) = word :: words rest := by
  have hcut : cutWhere isBlank word = [word] := cutWhere_of_forall hword.2
  have hkept : ([word].filter (!·.isEmpty)) = [word] := by
    cases word with
    | nil => exact absurd rfl hword.1
    | cons c cs => rfl
  cases rest with
  | nil =>
    unfold words
    rw [List.append_nil, hcut, hkept]
    rfl
  | cons b rest =>
    have hb : isBlank b = true := hrest b rfl
    have hgap : IsGap [b] := by
      intro c hc
      rw [List.mem_singleton.mp hc]
      exact hb
    have hwords : words (b :: rest) = words rest := words_append_of_isGap hgap rest
    rw [hwords]
    unfold words
    rw [cutWhere_append_cons hb, hcut, List.filter_append, hkept, List.singleton_append]

end RollupInput.Text
