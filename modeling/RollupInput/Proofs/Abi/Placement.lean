import RollupInput.Proofs.Abi.Encoding

/-!
# Bytes at positions of data

What the steps of the reader give where the data holds known bytes. A member of a sequence is
placed if its place holds its encoding, or the offset of its encoding from the start of the
sequence. All members of a layout are placed, which is the one fact that readers of sequences
need of it.
-/

namespace RollupInput.Abi

/-- Whether data holds bytes at a position. -/
def StandsAt (data : Array UInt8) (pos : Nat) (bs : List UInt8) : Prop :=
  ∃ front back, data.toList = front ++ bs ++ back ∧ front.length = pos

variable {data : Array UInt8} {pos base depth : Nat}

namespace StandsAt

/-- The first of two texts stands where both do. -/
theorem left {xs ys : List UInt8} (h : StandsAt data pos (xs ++ ys)) : StandsAt data pos xs := by
  obtain ⟨front, back, hd, hl⟩ := h
  exact ⟨front, ys ++ back, by simp [hd], hl⟩

/-- The second of two texts stands behind the first. -/
theorem right {xs ys : List UInt8} (h : StandsAt data pos (xs ++ ys)) :
    StandsAt data (pos + xs.length) ys := by
  obtain ⟨front, back, hd, hl⟩ := h
  exact ⟨front ++ xs, back, by simp [hd], by rw [List.length_append, hl]⟩

/-- Bytes that stand in data end within it. -/
theorem le_size {bs : List UInt8} (h : StandsAt data pos bs) : pos + bs.length ≤ data.size := by
  obtain ⟨front, back, hd, hl⟩ := h
  have hs : data.size = (front ++ bs ++ back).length := by rw [← hd, Array.length_toList]
  rw [hs, List.length_append, List.length_append, hl]
  omega

/-- All of the data stands at its start. -/
theorem whole (bs : List UInt8) : StandsAt bs.toArray 0 bs := ⟨[], [], by simp, rfl⟩

end StandsAt

/-- Reading bytes where they stand. -/
theorem bytesAt_of_standsAt {bs : List UInt8} (h : StandsAt data pos bs) :
    bytesAt data pos bs.length = pure bs := by
  have hs := h.le_size
  obtain ⟨front, back, hd, hl⟩ := h
  have hx : (data.extract pos (pos + bs.length)).toList = bs := by
    rw [Array.toList_extract, hd, List.extract_eq_take_drop, List.append_assoc,
      List.drop_left' hl, Nat.add_sub_cancel_left, List.take_left]
  rw [bytesAt, if_neg (by omega), hx]

/-- Reading a word where it stands. -/
theorem wordAt_of_standsAt {w : List UInt8} (h : StandsAt data pos w)
    (hw : w.length = wordBytes) : wordAt data pos = pure w := by
  rw [wordAt, ← hw]
  exact bytesAt_of_standsAt h

/-- Reading a 64 bit number where its word stands. -/
theorem numberAt_of_standsAt {n : Nat} (h : StandsAt data pos (wordOfNat n)) (hn : n < wordLimit) :
    numberAt data pos = pure n := by
  rw [numberAt, wordAt_of_standsAt h (length_wordOfNat n), pure_bind,
    if_pos (all_take_wordOfNat hn), natOfBytes_drop_wordOfNat hn]

/-- A container opens above the greatest depth. -/
theorem openAt_of_lt (h : depth < maxDepth) : openAt depth = pure () := if_neg (by omega)

/-- No container opens at the greatest depth. -/
theorem openAt_of_ge (h : maxDepth ≤ depth) : openAt depth = .fail .tooDeep := if_pos h

/-- Following an offset whose word stands at a position. -/
theorem follow_of_standsAt {offset : Nat} (h : StandsAt data pos (wordOfNat offset))
    (hn : offset < wordLimit) (hd : depth < maxDepth) (hb : base + offset ≤ data.size) :
    follow data depth base pos = pure (base + offset) := by
  rw [follow, numberAt_of_standsAt h hn, pure_bind, openAt_of_lt hd, pure_bind, if_neg (by omega)]

/-- Whether a member of a sequence that starts at `base` is placed at a position. -/
def Placed (data : Array UInt8) (base pos : Nat) (p : Part) : Prop :=
  if p.dynamic then
    ∃ offset, StandsAt data pos (wordOfNat offset) ∧ StandsAt data (base + offset) p.bytes
  else StandsAt data pos p.bytes

/-- Whether members of a sequence are placed one after the other, from a position on. -/
def AllPlaced (data : Array UInt8) (base : Nat) : Nat → List Part → Prop
  | _, [] => True
  | pos, p :: rest => Placed data base pos p ∧ AllPlaced data base (pos + p.placeBytes) rest

/-- Places together with the members that they lead to place a sequence. -/
theorem allPlaced_of_standsAt {parts : List Part} {offset : Nat}
    (hh : StandsAt data pos (heads offset parts)) (ht : StandsAt data (base + offset) (tails parts)) :
    AllPlaced data base pos parts := by
  induction parts generalizing pos offset with
  | nil => trivial
  | cons p rest ih =>
    rw [heads] at hh
    rw [tails] at ht
    unfold AllPlaced Placed Part.placeBytes
    by_cases hd : p.dynamic = true
    · rw [if_pos hd] at hh ht
      have hrest := hh.right
      rw [length_wordOfNat] at hrest
      have hmore := ht.right
      rw [Nat.add_assoc] at hmore
      rw [if_pos hd, if_pos hd]
      exact ⟨⟨offset, hh.left, ht.left⟩, ih hrest hmore⟩
    · rw [if_neg hd] at hh ht
      rw [if_neg hd, if_neg hd]
      exact ⟨hh.left, ih hh.right ht⟩

/-- The members of a layout are placed from its start on. -/
theorem allPlaced_of_layOut {parts : List Part} (h : StandsAt data base (layOut parts)) :
    AllPlaced data base base parts := by
  have ht := h.right
  rw [length_heads] at ht
  exact allPlaced_of_standsAt h.left ht

end RollupInput.Abi
