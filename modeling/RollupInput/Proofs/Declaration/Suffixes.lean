import Mathlib.Data.List.Induction
import RollupInput.Proofs.Declaration.Nesting
import RollupInput.Proofs.Declaration.Written
import RollupInput.Proofs.Text.Decimal

/-!
# Array suffixes of written types

The suffixes of a written type are taken off it from the end, back to its base, and put onto the
type of the base from left to right. Blanks around a size make no difference.
-/

namespace RollupInput.Declaration

open Abi

/-- A blank is no bracket and no comma. -/
theorem isPlain_of_isBlank {c : Char} (h : Text.isBlank c = true) :
    IsPlain c ∧ c ≠ ',' ∧ c ≠ '(' ∧ c ≠ ')' ∧ c ≠ '[' ∧ c ≠ ']' := by
  have hne (d : Char) (hd : Text.isBlank d = false) : c ≠ d := by
    rintro rfl
    rw [h] at hd
    cases hd
  have hround := hne '(' rfl
  have hround' := hne ')' rfl
  have hsquare := hne '[' rfl
  have hsquare' := hne ']' rfl
  have hcurly := hne '\x7b' rfl
  have hcurly' := hne '\x7d' rfl
  refine ⟨⟨?_, ?_⟩, hne ',' rfl, hround, hround', hsquare, hsquare'⟩
  · simp [opens, hround, hsquare, hcurly]
  · simp [closes, hround', hsquare', hcurly']

/-- A character of identifiers is no bracket, no comma and no plus. -/
theorem isPlain_of_isIdentifierChar {c : Char} (h : Text.isIdentifierChar c = true) :
    IsPlain c ∧ c ≠ ',' ∧ c ≠ '+' ∧ c ≠ '(' ∧ c ≠ ')' ∧ c ≠ '[' ∧ c ≠ ']' := by
  have hne (d : Char) (hd : Text.isIdentifierChar d = false) : c ≠ d := by
    rintro rfl
    rw [h] at hd
    cases hd
  have hround := hne '(' rfl
  have hround' := hne ')' rfl
  have hsquare := hne '[' rfl
  have hsquare' := hne ']' rfl
  have hcurly := hne '\x7b' rfl
  have hcurly' := hne '\x7d' rfl
  refine ⟨⟨?_, ?_⟩, hne ',' rfl, hne '+' rfl, hround, hround', hsquare, hsquare'⟩
  · simp [opens, hround, hsquare, hcurly]
  · simp [closes, hround', hsquare', hcurly']

namespace WrittenSuffix

variable {s : WrittenSuffix}

/-- Blanks and digits stand between the brackets of a suffix. -/
theorem mem_content (h : s.IsLaidOut) {c : Char} (hc : c ∈ s.content) :
    Text.isBlank c = true ∨ Text.isDigit c = true := by
  unfold content at hc
  rcases List.mem_append.mp hc with hc | hc
  · exact .inl (h.before c hc)
  · rcases List.mem_append.mp hc with hc | hc
    · cases hsize : s.size with
      | none =>
        rw [hsize] at hc
        cases hc
      | some n =>
        rw [hsize] at hc
        exact .inr (Text.isDigit_of_mem_decimal hc)
    · exact .inl (h.after c hc)

/-- The size of a suffix is read from between its brackets. -/
theorem readSize_content (h : s.IsLaidOut) : readSize s.content = .ok s.size := by
  obtain ⟨before, size, after⟩ := s
  unfold readSize content
  cases size with
  | none =>
    have hgap : Text.IsGap (before ++ ([] ++ after)) := by
      intro c hc
      rcases List.mem_append.mp hc with hc | hc
      · exact h.before c hc
      · exact h.after c hc
    have htrim := Text.trim_of_isGap hgap
    dsimp only [Option.map_none, Option.getD_none]
    rw [htrim]
    rfl
  | some n =>
    have hidentifier : ∀ c ∈ Text.decimal n, Text.isIdentifierChar c = true := fun c hc =>
      Text.isIdentifierChar_of_isDigit (Text.isDigit_of_mem_decimal hc)
    have htight : Text.IsTight (Text.decimal n) := Text.isTight_of_forall fun c hc =>
      Text.isBlank_of_isIdentifierChar (hidentifier c hc)
    have htrim := Text.trim_of_gaps h.before h.after htight
    have hempty : (Text.decimal n).isEmpty = false := by
      rw [List.isEmpty_eq_false_iff]
      exact Text.decimal_ne_nil n
    have hplus : Text.after? ['+'] (Text.decimal n) = none := by
      unfold Text.after?
      refine if_neg fun hprefix => ?_
      have hmem : '+' ∈ Text.decimal n :=
        (List.isPrefixOf_iff_prefix.mp hprefix).subset List.mem_cons_self
      exact (isPlain_of_isIdentifierChar (hidentifier '+' hmem)).2.2.1 rfl
    dsimp only [Option.map_some, Option.getD_some]
    rw [htrim, hempty, if_neg Bool.false_ne_true, hplus, Option.getD_none,
      Text.readDecimal?_decimal]
    dsimp only
    rw [if_pos (h.size n rfl)]

end WrittenSuffix

/-- The sizes of written suffixes are put onto a type from left to right. -/
theorem withSuffixes_contents {suffixes : List WrittenSuffix} (h : ∀ s ∈ suffixes, s.IsLaidOut)
    (t : AbiType) :
    withSuffixes t (suffixes.map WrittenSuffix.content) =
      .ok ((suffixes.map WrittenSuffix.size).foldl AbiType.suffixed t) := by
  induction suffixes generalizing t with
  | nil => rfl
  | cons s rest ih =>
    have hs := s.readSize_content (h s List.mem_cons_self)
    rw [List.map_cons, withSuffixes, hs]
    exact ih (fun x hx => h x (List.mem_cons_of_mem s hx)) (t.suffixed s.size)

/-- A bracketed text is taken off the end of a type as one suffix, if it holds neither an opening
bracket nor the end of a tuple. -/
theorem suffixesBackward_bracket {size : List Char} (h : ∀ c ∈ size, c ≠ ')' ∧ c ≠ '[')
    (found : List (List Char)) (base : List Char) :
    suffixesBackward found (']' :: (size ++ '[' :: base)) =
      suffixesBackward (size.reverse :: found) base := by
  have hsize : ∀ c ∈ size, (c != '[') = true := fun c hc => bne_iff_ne.mpr (h c hc).2
  have htake : (size ++ '[' :: base).takeWhile (· != '[') = size := by
    rw [List.takeWhile_append_of_pos hsize, List.takeWhile_cons_of_neg (by decide),
      List.append_nil]
  have hdrop : (size ++ '[' :: base).dropWhile (· != '[') = '[' :: base := by
    rw [List.dropWhile_append_of_pos hsize, List.dropWhile_cons_of_neg (by decide)]
  have hround : size.contains ')' = false := by
    rw [Bool.eq_false_iff, Ne, List.contains_iff_mem]
    exact fun hmem => (h ')' hmem).1 rfl
  rw [suffixesBackward]
  split
  · next hnil =>
    rw [hdrop] at hnil
    cases hnil
  · next c rest hrest =>
    rw [hdrop] at hrest
    obtain ⟨-, rfl⟩ := List.cons.inj hrest
    rw [htake, hround, if_neg Bool.false_ne_true]

/-- A type that does not end with a bracket has no suffixes. -/
theorem suffixesBackward_base {base : List Char} (h : ∀ c ∈ base.head?, c ≠ ']')
    (found : List (List Char)) : suffixesBackward found base = some (base, found) := by
  rw [suffixesBackward]
  · rintro rest rfl
    exact h ']' rfl rfl

/-- The text of array suffixes with some texts between their brackets. -/
def suffixText (sizes : List (List Char)) : List Char :=
  sizes.flatMap fun size => '[' :: (size ++ [']'])

/-- All suffixes are taken off a type, back to its base. -/
theorem suffixesBackward_suffixText {sizes : List (List Char)}
    (h : ∀ size ∈ sizes, ∀ c ∈ size, c ≠ ')' ∧ c ≠ '[') {base : List Char}
    (hbase : ∀ c ∈ base.getLast?, c ≠ ']') (found : List (List Char)) :
    suffixesBackward found (base ++ suffixText sizes).reverse =
      some (base.reverse, sizes ++ found) := by
  induction sizes using List.reverseRecOn generalizing found with
  | nil =>
    unfold suffixText
    rw [List.flatMap_nil, List.append_nil]
    refine suffixesBackward_base ?_ found
    rw [List.head?_reverse]
    exact hbase
  | append_singleton sizes size ih =>
    have hsize : ∀ c ∈ size.reverse, c ≠ ')' ∧ c ≠ '[' := fun c hc =>
      h size (List.mem_append_right _ List.mem_cons_self) c (List.mem_reverse.mp hc)
    have htext : (base ++ suffixText (sizes ++ [size])).reverse =
        ']' :: (size.reverse ++ '[' :: (base ++ suffixText sizes).reverse) := by
      simp [suffixText]
    rw [htext, suffixesBackward_bracket hsize,
      ih fun other hother => h other (List.mem_append_left _ hother), List.reverse_reverse,
      List.append_assoc]
    rfl

end RollupInput.Declaration
