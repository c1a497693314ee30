import RollupInput.Json.Writer
import RollupInput.Proofs.Json.NumberText
import RollupInput.Proofs.Text.Hex
import Mathlib.Data.List.TakeWhile

/-!
# Reading scalars

A string is read back from its quoted text, because every character is read back from its escape,
and a natural number of 64 bits from its decimal text, if what follows does not go on with the
number.
-/

namespace RollupInput.Json

/-- The four digits of a character below U+0020 are read as its code. -/
theorem unit?_control {n : Nat} (h : n < 32) :
    unit? '0' '0' (Text.Hex.digit (n / 16)) (Text.Hex.digit (n % 16)) = some n := by
  have hzero : Text.Hex.value? '0' = some 0 := by decide
  unfold unit?
  rw [hzero, Text.Hex.value?_digit (by omega), Text.Hex.value?_digit (by omega)]
  dsimp only
  congr 1
  omega

/-- A character that needs no escape is read as it is. -/
theorem readString_plain {c : Char} {cs : List Char} (hquote : c ≠ '"') (hslash : c ≠ '\\')
    (hcontrol : ¬c.toNat < 32) : readString (c :: cs) = prepend c (readString cs) := by
  rw [readString, if_neg hcontrol]
  -- what is left is that no equation for a quote or an escape applies
  all_goals intros
  all_goals contradiction

/-- The escape of a control character is read as the character. -/
theorem readString_control {c : Char} (h : c.toNat < 32) (cs : List Char) :
    readString ('\\' :: 'u' :: '0' :: '0' :: Text.Hex.digit (c.toNat / 16) ::
      Text.Hex.digit (c.toNat % 16) :: cs) = prepend c (readString cs) := by
  have hlow : ¬isLowSurrogate c.toNat = true := by
    unfold isLowSurrogate
    simp only [Bool.and_eq_true, decide_eq_true_eq]
    omega
  have hhigh : ¬isHighSurrogate c.toNat = true := by
    unfold isHighSurrogate
    simp only [Bool.and_eq_true, decide_eq_true_eq]
    omega
  rw [readString, unit?_control h]
  dsimp only
  rw [if_neg hlow, if_neg hhigh, Char.ofNat_toNat]

/-- Every character is read back from its escape. -/
theorem readString_escapeChar (c : Char) (cs : List Char) :
    readString (escapeChar c ++ cs) = prepend c (readString cs) := by
  have hcode : ∀ n, c.toNat = n → c = Char.ofNat n := by
    rintro n rfl
    exact (Char.ofNat_toNat c).symm
  unfold escapeChar
  simp only [beq_iff_eq]
  split
  · next h => rw [h]; rfl
  split
  · next h => rw [h]; rfl
  split
  · next h => rw [h]; rfl
  split
  · next h => rw [h]; rfl
  split
  · next h => rw [h]; rfl
  split
  · next h => rw [hcode 8 h]; rfl
  split
  · next h => rw [hcode 12 h]; rfl
  split
  · next h => exact readString_control h cs
  · next hquote hslash _ _ _ _ _ hcontrol => exact readString_plain hquote hslash hcontrol

/-- A text is read back from between its quotes. -/
theorem readString_quoted (cs rest : List Char) :
    readString (cs.flatMap escapeChar ++ '"' :: rest) = .ok (cs, rest) := by
  induction cs with
  | nil => rfl
  | cons c cs ih =>
    rw [List.flatMap_cons, List.append_assoc, readString_escapeChar, ih]
    rfl

/-- A text that does not go on with a number. -/
def EndsNumber (cs : List Char) : Prop := ∀ c ∈ cs.head?, isNumberChar c = false

/-- A character that belongs to no number ends a number. -/
theorem endsNumber_cons {c : Char} (h : isNumberChar c = false) (cs : List Char) :
    EndsNumber (c :: cs) := by
  intro d hd
  cases hd
  exact h

/-- The number that the text of a natural number of 64 bits writes. -/
theorem ofChars?_decimal (n : Nat) :
    NumberText.ofChars? (Text.decimal n) = some ⟨false, Text.decimal n, [], none⟩ := by
  have hdigits : ∀ c ∈ Text.decimal n, Text.isDigit c = true := fun _ => Text.isDigit_of_mem_decimal
  have htake : (Text.decimal n).takeWhile Text.isDigit = Text.decimal n :=
    List.takeWhile_eq_self_iff.mpr hdigits
  have hdrop : (Text.decimal n).dropWhile Text.isDigit = [] :=
    List.dropWhile_eq_nil_iff.mpr hdigits
  have hempty : (Text.decimal n).isEmpty = false := by
    rw [List.isEmpty_eq_false_iff]
    exact Text.decimal_ne_nil n
  have hzero : (decide ((Text.decimal n).length > 1) && (Text.decimal n).head? == some '0') =
      false := by
    by_cases hn : n = 0
    · rw [hn]
      rfl
    · rw [Bool.and_eq_false_iff]
      exact .inr (beq_eq_false_iff_ne.mpr (Text.head?_decimal_ne_zero (Nat.pos_of_ne_zero hn)))
  unfold NumberText.ofChars?
  cases hcs : Text.decimal n with
  | nil => exact absurd hcs (Text.decimal_ne_nil n)
  | cons c cs =>
    have hminus : c ≠ '-' := by
      rintro rfl
      have hc := hdigits '-' (by rw [hcs]; exact .head _)
      exact absurd hc (by decide)
    rw [hcs] at htake hdrop hempty hzero
    dsimp only
    split
    · next ds heq =>
      exact absurd (List.cons.inj heq).1 hminus
    · rw [htake, hdrop, hempty, hzero]
      rfl

/-- A natural number of 64 bits is read back from its decimal text. -/
theorem readNumber_decimal {n : Nat} (h : n ≤ maxSignificand) {rest : List Char}
    (hrest : EndsNumber rest) :
    readNumber (Text.decimal n ++ rest) = .ok (.int n, rest) := by
  have hchars : ∀ c ∈ Text.decimal n, isNumberChar c = true := fun _ => isNumberChar_of_mem_decimal
  have hnone : rest.takeWhile isNumberChar = [] ∧ rest.dropWhile isNumberChar = rest := by
    cases rest with
    | nil => exact ⟨rfl, rfl⟩
    | cons c cs =>
      have hc : ¬isNumberChar c = true := by
        rw [hrest c rfl]
        exact Bool.false_ne_true
      exact ⟨List.takeWhile_cons_of_neg hc, List.dropWhile_cons_of_neg hc⟩
  have hnumber : NumberText.number? ⟨false, Text.decimal n, [], none⟩ = some (.int n) := by
    unfold NumberText.number?
    dsimp only
    rw [Text.ofDigitChars_decimal]
    exact if_pos (by simpa using h)
  unfold readNumber
  rw [List.takeWhile_append_of_pos hchars, List.dropWhile_append_of_pos hchars, hnone.1, hnone.2,
    List.append_nil, ofChars?_decimal]
  dsimp only
  rw [hnumber]

end RollupInput.Json
