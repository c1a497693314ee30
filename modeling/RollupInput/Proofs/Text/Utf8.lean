import RollupInput.Text.Utf8

/-!
# Reading UTF-8 back

Reading the bytes of a text gives the text, with no malformed part. The step lemma reads one
character in front of any other bytes; its cases are the four lengths of a character's form.
-/

namespace RollupInput.Text.Utf8

/-- A byte below 0x80 begins, and is, a whole character. -/
theorem start_of_lt {n : Nat} (h : n < 0x80) : start (UInt8.ofNat n) = .whole (Char.ofNat n) := by
  have hb := UInt8.toNat_ofNat_of_lt' (show n < 256 by omega)
  simp only [start, hb, if_pos h]

/-- The first byte of a form of two bytes. -/
theorem start_two {k : Nat} (hl : 2 ≤ k) (hh : k < 32) :
    start (UInt8.ofNat (0xC0 + k)) = .opens ⟨0, 0x80, 0xBF, k⟩ := by
  have hb := UInt8.toNat_ofNat_of_lt' (show 0xC0 + k < 256 by omega)
  simp only [start, hb]
  rw [if_neg (by omega), if_neg (by omega), if_pos (by omega), Nat.add_sub_cancel_left]

/-- The least value of the byte after the first one of a form of three bytes. -/
def lowOfThree (k : Nat) : Nat := if k = 0 then 0xA0 else 0x80

/-- The greatest value of the byte after the first one of a form of three bytes. -/
def highOfThree (k : Nat) : Nat := if k = 13 then 0x9F else 0xBF

/-- The first byte of a form of three bytes. -/
theorem start_three {k : Nat} (hh : k < 16) :
    start (UInt8.ofNat (0xE0 + k)) = .opens ⟨1, lowOfThree k, highOfThree k, k⟩ := by
  have hb := UInt8.toNat_ofNat_of_lt' (show 0xE0 + k < 256 by omega)
  simp only [start, hb, lowOfThree, highOfThree, beq_iff_eq]
  rw [if_neg (by omega), if_neg (by omega), if_neg (by omega)]
  by_cases h0 : k = 0
  · subst h0
    rfl
  · by_cases hd : k = 13
    · subst hd
      rfl
    · rw [if_neg (by omega), if_neg (by omega), if_pos (by omega), if_neg h0, if_neg hd,
        Nat.add_sub_cancel_left]

/-- The least value of the byte after the first one of a form of four bytes. -/
def lowOfFour (k : Nat) : Nat := if k = 0 then 0x90 else 0x80

/-- The greatest value of the byte after the first one of a form of four bytes. -/
def highOfFour (k : Nat) : Nat := if k = 4 then 0x8F else 0xBF

/-- The first byte of a form of four bytes. -/
theorem start_four {k : Nat} (hh : k < 5) :
    start (UInt8.ofNat (0xF0 + k)) = .opens ⟨2, lowOfFour k, highOfFour k, k⟩ := by
  have hk : k = 0 ∨ k = 1 ∨ k = 2 ∨ k = 3 ∨ k = 4 := by omega
  rcases hk with rfl | rfl | rfl | rfl | rfl <;> rfl

/-- The last byte of a character completes it. -/
theorem decodeFrom_last {low high bits b : Nat} (rest : List UInt8) (hl : low ≤ b) (hh : b ≤ high)
    (hb : b < 256) :
    decodeFrom (some ⟨0, low, high, bits⟩) (UInt8.ofNat b :: rest) =
      some (Char.ofNat (bits * 64 + b % 64)) :: decodeFrom none rest := by
  have hn := UInt8.toNat_ofNat_of_lt' hb
  simp only [decodeFrom, hn]
  rw [if_pos (by simp [hl, hh])]

/-- An inner byte of a character adds its bits. -/
theorem decodeFrom_inner {more low high bits b : Nat} (rest : List UInt8) (hl : low ≤ b)
    (hh : b ≤ high) (hb : b < 256) :
    decodeFrom (some ⟨more + 1, low, high, bits⟩) (UInt8.ofNat b :: rest) =
      decodeFrom (some ⟨more, 0x80, 0xBF, bits * 64 + b % 64⟩) rest := by
  have hn := UInt8.toNat_ofNat_of_lt' hb
  simp only [decodeFrom, hn]
  rw [if_pos (by simp [hl, hh])]

/-- A character is below 0x110000 and no surrogate. -/
theorem toNat_bounds (c : Char) : c.toNat < 0xD800 ∨ (0xE000 ≤ c.toNat ∧ c.toNat < 0x110000) := by
  have h : c.toNat < 0xD800 ∨ (0xDFFF < c.toNat ∧ c.toNat < 0x110000) := c.valid
  omega

/-- Reading the bytes of a character in front of any others gives the character. -/
theorem decodeFrom_encodeChar (c : Char) (rest : List UInt8) :
    decodeFrom none (encodeChar c ++ rest) = some c :: decodeFrom none rest := by
  have hv := toNat_bounds c
  have hc : Char.ofNat c.toNat = c := Char.ofNat_toNat c
  simp only [encodeChar]
  generalize c.toNat = n at hv hc
  by_cases h1 : n < 0x80
  · rw [if_pos h1]
    simp only [List.cons_append, List.nil_append, decodeFrom, start_of_lt h1, hc]
  rw [if_neg h1]
  by_cases h2 : n < 0x800
  · rw [if_pos h2]
    simp only [List.cons_append, List.nil_append]
    rw [decodeFrom, start_two (k := n / 64) (by omega) (by omega)]
    dsimp only
    rw [decodeFrom_last rest (by omega) (by omega) (by omega)]
    rw [show n / 64 * 64 + (0x80 + n % 64) % 64 = n by omega, hc]
  rw [if_neg h2]
  by_cases h3 : n < 0x10000
  · have hl : lowOfThree (n / 4096) ≤ 0x80 + n / 64 % 64 := by
      unfold lowOfThree
      split <;> omega
    have hh : 0x80 + n / 64 % 64 ≤ highOfThree (n / 4096) := by
      unfold highOfThree
      split <;> omega
    rw [if_pos h3]
    simp only [List.cons_append, List.nil_append]
    rw [decodeFrom, start_three (k := n / 4096) (by omega)]
    dsimp only
    rw [decodeFrom_inner _ hl hh (by omega), decodeFrom_last rest (by omega) (by omega) (by omega)]
    rw [show (n / 4096 * 64 + (0x80 + n / 64 % 64) % 64) * 64 + (0x80 + n % 64) % 64 = n by omega,
      hc]
  · have hl : lowOfFour (n / 262144) ≤ 0x80 + n / 4096 % 64 := by
      unfold lowOfFour
      split <;> omega
    have hh : 0x80 + n / 4096 % 64 ≤ highOfFour (n / 262144) := by
      unfold highOfFour
      split <;> omega
    rw [if_neg h3]
    simp only [List.cons_append, List.nil_append]
    rw [decodeFrom, start_four (k := n / 262144) (by omega)]
    dsimp only
    rw [decodeFrom_inner _ hl hh (by omega), decodeFrom_inner _ (by omega) (by omega) (by omega),
      decodeFrom_last rest (by omega) (by omega) (by omega)]
    rw [show ((n / 262144 * 64 + (0x80 + n / 4096 % 64) % 64) * 64 +
      (0x80 + n / 64 % 64) % 64) * 64 + (0x80 + n % 64) % 64 = n by omega, hc]

/-- Reading the bytes of a text gives its characters, none of them malformed. -/
theorem decode_encode (cs : List Char) : decode (encode cs) = cs.map some := by
  unfold decode
  induction cs with
  | nil => rfl
  | cons c cs ih =>
    have hcons : encode (c :: cs) = encodeChar c ++ encode cs := List.flatMap_cons
    rw [hcons, decodeFrom_encodeChar, ih, List.map_cons]

/-- The reading that never fails gives a text back from its bytes. -/
theorem decodeLossy_encode (cs : List Char) : decodeLossy (encode cs) = cs := by
  unfold decodeLossy
  rw [decode_encode, List.map_map]
  exact List.map_id' cs

/-- A text is read back from its bytes, which are UTF-8 throughout. -/
theorem decodeStrict?_encode (cs : List Char) : decodeStrict? (encode cs) = some cs := by
  rw [decodeStrict?, decode_encode, List.mapM_map]
  exact List.mapM_pure.trans (congrArg some (List.map_id cs))

end RollupInput.Text.Utf8
