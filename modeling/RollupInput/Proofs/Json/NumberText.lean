import RollupInput.Json.Reader
import RollupInput.Proofs.Text.Decimal

/-!
# Characters of numbers

The text of a number is made of the characters that a number is read from: digits, signs, a point
and an exponent mark. So it differs from every text in which another character stands.
-/

namespace RollupInput.Json

/-- A digit may belong to a number. -/
theorem isNumberChar_of_isDigit {c : Char} (h : Text.isDigit c = true) :
    isNumberChar c = true := by
  unfold isNumberChar
  rw [h]
  rfl

/-- The characters of a decimal text may belong to a number. -/
theorem isNumberChar_of_mem_decimal {n : Nat} {c : Char} (h : c ∈ Text.decimal n) :
    isNumberChar c = true :=
  isNumberChar_of_isDigit (Text.isDigit_of_mem_decimal h)

/-- The fewest digits of a double are digits of a decimal text. -/
theorem isNumberChar_of_mem_shortest {a : Magnitude} {c : Char} (h : c ∈ a.shortest.digits) :
    isNumberChar c = true := by
  unfold Magnitude.shortest at h
  dsimp only at h
  have hwritten := List.dropWhile_subset _ (List.mem_reverse.mp h)
  exact isNumberChar_of_mem_decimal (List.mem_reverse.mp hwritten)

/-- The characters of an exponent may belong to a number. -/
theorem isNumberChar_of_mem_exponentText {e : Int} {c : Char}
    (h : c ∈ Binary64.exponentText e) : isNumberChar c = true := by
  unfold Binary64.exponentText at h
  rcases List.mem_cons.mp h with rfl | h
  · rfl
  · rcases List.mem_cons.mp h with rfl | h
    · split <;> rfl
    · exact isNumberChar_of_mem_decimal h

/-- The characters of zeros that pad digits may belong to a number. -/
theorem isNumberChar_of_mem_zeros {n : Nat} {c : Char} (h : c ∈ List.replicate n '0') :
    isNumberChar c = true := by
  rw [List.eq_of_mem_replicate h]
  rfl

/-- Digits with a point or an exponent stay made of characters of numbers. -/
theorem isNumberChar_of_mem_digitsText {d : Magnitude.Digits}
    (hd : ∀ c ∈ d.digits, isNumberChar c = true) {c : Char} (h : c ∈ Binary64.digitsText d) :
    isNumberChar c = true := by
  have hmark : ['.', '0'].all isNumberChar = true := rfl
  unfold Binary64.digitsText at h
  dsimp only at h
  split at h
  · rcases List.mem_append.mp h with h | h
    · rcases List.mem_append.mp h with h | h
      · exact hd c h
      · exact isNumberChar_of_mem_zeros h
    · exact List.all_eq_true.mp hmark c h
  · split at h
    · rcases List.mem_append.mp h with h | h
      · exact hd c (List.mem_of_mem_take h)
      · rcases List.mem_cons.mp h with rfl | h
        · rfl
        · exact hd c (List.mem_of_mem_drop h)
    · split at h
      · rcases List.mem_cons.mp h with rfl | h
        · rfl
        · rcases List.mem_cons.mp h with rfl | h
          · rfl
          · rcases List.mem_append.mp h with h | h
            · exact isNumberChar_of_mem_zeros h
            · exact hd c h
      · cases hdigits : d.digits with
        | nil =>
          rw [hdigits] at h
          cases h
        | cons first rest =>
          have hfirst : isNumberChar first = true := hd first (by rw [hdigits]; exact .head _)
          have hrest : ∀ x ∈ rest, isNumberChar x = true := by
            intro x hx
            exact hd x (by rw [hdigits]; exact .tail _ hx)
          rw [hdigits] at h
          cases rest with
          | nil =>
            rcases List.mem_cons.mp h with rfl | h
            · exact hfirst
            · exact isNumberChar_of_mem_exponentText h
          | cons second rest =>
            rcases List.mem_cons.mp h with rfl | h
            · exact hfirst
            · rcases List.mem_cons.mp h with rfl | h
              · rfl
              · rcases List.mem_append.mp h with h | h
                · exact hrest c h
                · exact isNumberChar_of_mem_exponentText h

/-- The characters of a double's text may belong to a number. -/
theorem isNumberChar_of_mem_binary64 {x : Binary64} {c : Char} (h : c ∈ x.text) :
    isNumberChar c = true := by
  have hbody : ∀ c ∈ (if x.magnitude.mantissa == 0 then ['0', '.', '0']
      else Binary64.digitsText x.magnitude.shortest), isNumberChar c = true := by
    have hzero : ['0', '.', '0'].all isNumberChar = true := rfl
    split
    · exact List.all_eq_true.mp hzero
    · intro c hc
      exact isNumberChar_of_mem_digitsText (fun _ => isNumberChar_of_mem_shortest) hc
  unfold Binary64.text at h
  dsimp only at h
  generalize hb : (if x.magnitude.mantissa == 0 then ['0', '.', '0']
      else Binary64.digitsText x.magnitude.shortest) = body at h hbody
  split at h
  · rcases List.mem_cons.mp h with rfl | h
    · rfl
    · exact hbody c h
  · exact hbody c h

/-- The characters of a number's text are those that a number is read from. -/
theorem isNumberChar_of_mem_text {n : JsonNumber} {c : Char} (h : c ∈ n.text) :
    isNumberChar c = true := by
  cases n with
  | int value =>
    cases value with
    | ofNat n => exact isNumberChar_of_mem_decimal h
    | negSucc n =>
      rcases List.mem_cons.mp h with rfl | h
      · rfl
      · exact isNumberChar_of_mem_decimal h
  | double x => exact isNumberChar_of_mem_binary64 h

end RollupInput.Json
