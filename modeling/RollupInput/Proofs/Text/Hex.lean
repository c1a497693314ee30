import RollupInput.Text.Hex

/-!
# Digits of bytes

Bytes are read back from their digits, so different bytes have different digits. The digits are of
lower case, and one that was made upper case is found again by making it lower case. A text of digits
of either case is read as the bytes whose digits are its lower case.
-/

namespace RollupInput.Text.Hex

/-- The value of the digit that is written for a number below sixteen. -/
theorem value?_digit {n : Nat} (h : n < 16) : value? (digit n) = some n := by
  have hall : ∀ n < 16, value? (digit n) = some n := by decide
  exact hall n h

/-- A digit is of lower case, and its upper case form has it as its lower case form. -/
theorem lowerAscii_digit {n : Nat} (h : n < 16) :
    lowerAscii (digit n) = digit n ∧ lowerAscii (upperAscii (digit n)) = digit n := by
  have hall : ∀ n < 16, lowerAscii (digit n) = digit n ∧
      lowerAscii (upperAscii (digit n)) = digit n := by decide
  exact hall n h

/-- The codes of hexadecimal digits are those of ASCII. -/
theorem toNat_of_isHexDigit {c : Char} (h : isHexDigit c = true) : c.toNat < 128 := by
  simp only [isHexDigit, isDigit, Bool.or_eq_true, Bool.and_eq_true, decide_eq_true_eq,
    Char.le_def, UInt32.le_iff_toNat_le, Char.toNat_val] at h
  have hends : '9'.toNat = 57 ∧ 'f'.toNat = 102 ∧ 'F'.toNat = 70 := by decide
  omega

/-- A hexadecimal digit is no blank. -/
theorem isBlank_of_isHexDigit {c : Char} (h : isHexDigit c = true) : isBlank c = false := by
  have hall : ∀ k < 128, isHexDigit (Char.ofNat k) = true → isBlank (Char.ofNat k) = false := by
    decide
  have hc := hall c.toNat (toNat_of_isHexDigit h)
  rw [Char.ofNat_toNat] at hc
  exact hc h

/-- A hexadecimal digit has a value below sixteen, and its lower case is the digit of the value. -/
theorem exists_value_of_isHexDigit {c : Char} (h : isHexDigit c = true) :
    ∃ n < 16, value? c = some n ∧ lowerAscii c = digit n := by
  have hall : ∀ k < 128, isHexDigit (Char.ofNat k) = true →
      ∃ n < 16, value? (Char.ofNat k) = some n ∧ lowerAscii (Char.ofNat k) = digit n := by decide
  have hc := hall c.toNat (toNat_of_isHexDigit h)
  rw [Char.ofNat_toNat] at hc
  exact hc h

/-- A character whose lower case is a digit is a hexadecimal digit. -/
theorem isHexDigit_of_lowerAscii {c : Char} {n : Nat} (hn : n < 16) (h : lowerAscii c = digit n) :
    isHexDigit c = true := by
  have hlower : ∀ n < 16, isHexDigit (digit n) = true := by decide
  unfold lowerAscii at h
  split at h
  · rename_i hupper
    have hall : ∀ k < 128, ('A' ≤ Char.ofNat k && Char.ofNat k ≤ 'Z') = true → ∀ n < 16,
        Char.ofNat ((Char.ofNat k).toNat + 32) = digit n → isHexDigit (Char.ofNat k) = true := by
      decide
    have hascii : c.toNat < 128 := by
      simp only [Bool.and_eq_true, decide_eq_true_eq, Char.le_def, UInt32.le_iff_toNat_le,
        Char.toNat_val] at hupper
      have hend : 'Z'.toNat = 90 := by decide
      omega
    have hc := hall c.toNat hascii
    rw [Char.ofNat_toNat] at hc
    exact hc (by simpa using hupper) n hn h
  · rw [h]
    exact hlower n hn

/-- There are two digits per byte. -/
theorem length_digits (bs : List UInt8) : (digits bs).length = 2 * bs.length := by
  induction bs with
  | nil => rfl
  | cons b bs ih =>
    rw [digits, List.length_cons, List.length_cons, List.length_cons, ih]
    omega

/-- Every digit of bytes is one of a number below sixteen. -/
theorem exists_of_mem_digits {bs : List UInt8} {c : Char} (h : c ∈ digits bs) :
    ∃ n < 16, c = digit n := by
  induction bs with
  | nil => cases h
  | cons b bs ih =>
    have hb : b.toNat < 256 := UInt8.toNat_lt b
    rcases List.mem_cons.mp h with rfl | h
    · exact ⟨b.toNat / 16, by omega, rfl⟩
    · rcases List.mem_cons.mp h with rfl | h
      · exact ⟨b.toNat % 16, by omega, rfl⟩
      · exact ih h

/-- Bytes are read back from their digits. -/
theorem bytes?_digits (bs : List UInt8) : bytes? (digits bs) = some bs := by
  induction bs with
  | nil => rfl
  | cons b bs ih =>
    have hb : b.toNat < 256 := UInt8.toNat_lt b
    have hwhole : 16 * (b.toNat / 16) + b.toNat % 16 = b.toNat := by omega
    rw [digits, bytes?, value?_digit (by omega), value?_digit (by omega), ih]
    dsimp only
    rw [hwhole, UInt8.ofNat_toNat]

/-- Digits in pairs are read as the bytes whose digits are their lower case. -/
theorem exists_bytes_of_isHexDigit : ∀ cs : List Char, (∀ c ∈ cs, isHexDigit c = true) →
    cs.length % 2 = 0 → ∃ bs, bytes? cs = some bs ∧ cs.map lowerAscii = digits bs
  | [], _, _ => ⟨[], rfl, rfl⟩
  | [_], _, heven => by simp at heven
  | h :: l :: cs, hdigits, heven => by
    obtain ⟨a, ha, hvalueA, hlowerA⟩ := exists_value_of_isHexDigit (hdigits h (by simp))
    obtain ⟨b, hb, hvalueB, hlowerB⟩ := exists_value_of_isHexDigit (hdigits l (by simp))
    have hrest : cs.length % 2 = 0 := by
      rw [List.length_cons, List.length_cons] at heven
      omega
    obtain ⟨bs, hread, hlower⟩ :=
      exists_bytes_of_isHexDigit cs (fun c hc => hdigits c (by simp [hc])) hrest
    have hbyte : (UInt8.ofNat (16 * a + b)).toNat = 16 * a + b :=
      UInt8.toNat_ofNat_of_lt' (show 16 * a + b < 256 by omega)
    have hhigh : (16 * a + b) / 16 = a := by omega
    have hlow : (16 * a + b) % 16 = b := by omega
    refine ⟨UInt8.ofNat (16 * a + b) :: bs, by simp [bytes?, hvalueA, hvalueB, hread], ?_⟩
    rw [digits, hbyte, hhigh, hlow, List.map_cons, List.map_cons, hlowerA, hlowerB, hlower]

/-- Different bytes have different digits. -/
theorem digits_inj {as bs : List UInt8} (h : digits as = digits bs) : as = bs := by
  have hread := bytes?_digits as
  rw [h, bytes?_digits] at hread
  exact (Option.some.inj hread).symm

/-- A text whose lower case is the digits of bytes is made of hexadecimal digits, two for each. -/
theorem isHexDigit_of_map_lowerAscii {cs : List Char} {bs : List UInt8}
    (h : cs.map lowerAscii = digits bs) :
    (∀ c ∈ cs, isHexDigit c = true) ∧ cs.length = 2 * bs.length := by
  constructor
  · intro c hc
    have hmem : lowerAscii c ∈ digits bs := h ▸ List.mem_map_of_mem hc
    obtain ⟨n, hn, hdigit⟩ := exists_of_mem_digits hmem
    exact isHexDigit_of_lowerAscii hn hdigit
  · rw [← length_digits bs, ← h, List.length_map]

/-- Different bytes are written differently. -/
theorem ofBytes_inj {as bs : List UInt8} (h : ofBytes as = ofBytes bs) : as = bs := by
  have hchars := String.ofList_inj.mp h
  exact digits_inj (List.cons.inj (List.cons.inj hchars).2).2

end RollupInput.Text.Hex
