import RollupInput.Abi.Reader

/-!
# Words

Numbers as big endian bytes of a fixed count, and words of 32 bytes that hold numbers, integers in
two's complement, and byte strings set flush to one side. Each of them reads back as what it was
made from, which the reader of the parameter encoding relies on.
-/

namespace RollupInput.Abi

/-- The `size` low bytes of a number, most significant byte first. -/
def bytesOfNat : Nat → Nat → List UInt8
  | 0, _ => []
  | size + 1, n => bytesOfNat size (n / 256) ++ [UInt8.ofNat n]

/-- There are as many bytes as were asked for. -/
@[simp] theorem length_bytesOfNat (size n : Nat) : (bytesOfNat size n).length = size := by
  induction size generalizing n with
  | zero => rfl
  | succ size ih =>
    rw [bytesOfNat, List.length_append, ih]
    rfl

/-- The high and the low part of the bytes of a number. -/
theorem bytesOfNat_add (high low n : Nat) :
    bytesOfNat (high + low) n = bytesOfNat high (n / Nat.pow 256 low) ++ bytesOfNat low n := by
  induction low generalizing n with
  | zero =>
    have hn : n / Nat.pow 256 0 = n := Nat.div_one n
    rw [Nat.add_zero, hn, bytesOfNat, List.append_nil]
  | succ low ih =>
    have hn : n / 256 / Nat.pow 256 low = n / Nat.pow 256 (low + 1) := by
      rw [Nat.div_div_eq_div_mul, Nat.mul_comm]
      rfl
    rw [← Nat.add_assoc, bytesOfNat, ih, hn, bytesOfNat, List.append_assoc]

/-- One more byte at the end of a number. -/
theorem natOfBytes_concat (bs : List UInt8) (b : UInt8) :
    natOfBytes (bs ++ [b]) = 256 * natOfBytes bs + b.toNat := by
  unfold natOfBytes
  rw [List.foldl_append]
  rfl

/-- The low bytes of a number write it up to a multiple of their range. -/
theorem natOfBytes_bytesOfNat (size n : Nat) :
    natOfBytes (bytesOfNat size n) = n % Nat.pow 256 size := by
  induction size generalizing n with
  | zero =>
    have hn : n % Nat.pow 256 0 = 0 := Nat.mod_one n
    rw [hn]
    rfl
  | succ size ih =>
    have hb : (UInt8.ofNat n).toNat = n % 256 := UInt8.toNat_ofNat'
    have hp : Nat.pow 256 (size + 1) = 256 * Nat.pow 256 size := Nat.mul_comm _ _
    rw [bytesOfNat, natOfBytes_concat, ih, hb, hp, Nat.mod_mul, Nat.add_comm]

/-- The word of a natural number. -/
def wordOfNat (n : Nat) : List UInt8 := bytesOfNat wordBytes n

/-- A word has 32 bytes. -/
@[simp] theorem length_wordOfNat (n : Nat) : (wordOfNat n).length = wordBytes :=
  length_bytesOfNat wordBytes n

/-- A natural number of a word's range reads back. -/
theorem natOfBytes_wordOfNat {n : Nat} (h : n < Nat.pow 2 256) : natOfBytes (wordOfNat n) = n := by
  have hp : Nat.pow 256 wordBytes = Nat.pow 2 256 := by decide
  rw [wordOfNat, natOfBytes_bytesOfNat, hp]
  exact Nat.mod_eq_of_lt h

/-- The word of a 64 bit number: zeros, then its eight bytes. -/
theorem wordOfNat_of_lt {n : Nat} (h : n < wordLimit) :
    wordOfNat n = List.replicate 24 0 ++ bytesOfNat 8 n := by
  have hn : n / Nat.pow 256 8 = 0 := Nat.div_eq_of_lt h
  have hz : bytesOfNat 24 0 = List.replicate 24 0 := by decide
  have hw : wordOfNat n = bytesOfNat (24 + 8) n := rfl
  rw [hw, bytesOfNat_add, hn, hz]

/-- The high bytes of the word of a 64 bit number are zero. -/
theorem all_take_wordOfNat {n : Nat} (h : n < wordLimit) :
    ((wordOfNat n).take 24).all (· == 0) = true := by
  rw [wordOfNat_of_lt h, List.take_left' (List.length_replicate ..)]
  decide

/-- The low bytes of the word of a 64 bit number write it. -/
theorem natOfBytes_drop_wordOfNat {n : Nat} (h : n < wordLimit) :
    natOfBytes ((wordOfNat n).drop 24) = n := by
  have hm : n % Nat.pow 256 8 = n := Nat.mod_eq_of_lt h
  rw [wordOfNat_of_lt h, List.drop_left' (List.length_replicate ..), natOfBytes_bytesOfNat, hm]

/-- The word of an integer in two's complement. -/
def wordOfInt (i : Int) : List UInt8 := wordOfNat (i % (Nat.pow 2 256 : Nat)).toNat

/-- An integer of a word's range reads back. -/
theorem intOfWord_wordOfInt {i : Int} (hl : -((Nat.pow 2 255 : Nat) : Int) ≤ i)
    (hh : i < (Nat.pow 2 255 : Nat)) : intOfWord (wordOfInt i) = i := by
  have hp : Nat.pow 2 256 = 2 * Nat.pow 2 255 := by decide
  have hpos : 0 < Nat.pow 2 255 := by decide
  have hlt : (i % (Nat.pow 2 256 : Nat)).toNat < Nat.pow 2 256 := by
    have h0 := Int.emod_nonneg i (b := (Nat.pow 2 256 : Nat)) (by omega)
    have h1 := Int.emod_lt_of_pos i (b := (Nat.pow 2 256 : Nat)) (by omega)
    omega
  unfold intOfWord wordOfInt
  rw [natOfBytes_wordOfNat hlt]
  dsimp only
  by_cases hi : 0 ≤ i
  · have hm : i % (Nat.pow 2 256 : Nat) = i := Int.emod_eq_of_lt hi (by omega)
    rw [hm, if_pos (by omega)]
    omega
  · have hm : i % (Nat.pow 2 256 : Nat) = i + (Nat.pow 2 256 : Nat) := by
      rw [← Int.add_emod_right]
      exact Int.emod_eq_of_lt (by omega) (by omega)
    rw [hm, if_neg (by omega)]
    omega

/-- Zeros in front of bytes, up to a word. -/
def flushRight (bs : List UInt8) : List UInt8 := List.replicate (wordBytes - bs.length) 0 ++ bs

/-- Zeros behind bytes, up to a word. -/
def flushLeft (bs : List UInt8) : List UInt8 := bs ++ List.replicate (wordBytes - bs.length) 0

/-- Zeros behind bytes, up to the end of their last word. -/
def padded (bs : List UInt8) : List UInt8 :=
  bs ++ List.replicate ((wordBytes - bs.length % wordBytes) % wordBytes) 0

/-- Bytes set flush right fill a word if they fit. -/
theorem length_flushRight {bs : List UInt8} (h : bs.length ≤ wordBytes) :
    (flushRight bs).length = wordBytes := by
  rw [flushRight, List.length_append, List.length_replicate]
  omega

/-- Bytes set flush left fill a word if they fit. -/
theorem length_flushLeft {bs : List UInt8} (h : bs.length ≤ wordBytes) :
    (flushLeft bs).length = wordBytes := by
  rw [flushLeft, List.length_append, List.length_replicate]
  omega

end RollupInput.Abi
