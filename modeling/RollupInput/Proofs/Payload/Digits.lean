import RollupInput.Payload
import RollupInput.Proofs.Mapped
import RollupInput.Proofs.Text.Blanks
import RollupInput.Proofs.Text.Hex
import RollupInput.Proofs.Text.Utf8

/-!
# Reading payloads

A payload is read exactly if, between blanks and behind at most one mark, it is hexadecimal digits in
pairs, and it is read as the bytes whose digits these are in lower case. Every other text has one fault:
an odd number of bytes in its UTF-8 form, or else the first byte that is no digit. The three cases are
told apart for the digits first, and then carried through the mark and the blanks.
-/

namespace RollupInput.Payload

open Text

/-- A text that may stand as a mark in front of digits. -/
def IsMark (mark : List Char) : Prop := mark = [] ∨ mark = ['0', 'x'] ∨ mark = ['0', 'X']

/-- What is left of a text without one mark in front of it, if it starts with one. -/
inductive IsUnmarked : List Char → List Char → Prop where
  /-- The mark is of lower case. -/
  | lower (rest : List Char) : IsUnmarked ('0' :: 'x' :: rest) rest
  /-- The mark is of upper case. -/
  | upper (rest : List Char) : IsUnmarked ('0' :: 'X' :: rest) rest
  /-- There is no mark. -/
  | bare {cs : List Char} (hlower : ∀ rest, cs ≠ '0' :: 'x' :: rest)
      (hupper : ∀ rest, cs ≠ '0' :: 'X' :: rest) : IsUnmarked cs cs

/-- Whether a text writes bytes: without the blanks around it, it is a mark or none, and behind it
hexadecimal digits in pairs that are the digits of the bytes when they are made lower case. -/
def Writes (s : String) (bs : List UInt8) : Prop :=
  ∃ mark ds, IsMark mark ∧ trim s.toList = mark ++ ds ∧ ds.length % 2 = 0 ∧
    (∀ c ∈ ds, isHexDigit c = true) ∧ ds.map lowerAscii = Hex.digits bs

/-- The code of a hexadecimal digit. -/
def IsDigitCode (b : UInt8) : Prop := ∃ c, isHexDigit c = true ∧ Utf8.encodeChar c = [b]

/-- Whether a byte at an index is the first one that is no hexadecimal digit. -/
def IsFirstBad (bytes : List UInt8) (b : UInt8) (index : Nat) : Prop :=
  ∃ before after, bytes = before ++ b :: after ∧ before.length = index ∧ ¬IsDigitCode b ∧
    ∀ x ∈ before, IsDigitCode x

/-! ## Digits as bytes -/

/-- A hexadecimal digit is one byte, its code. -/
theorem encodeChar_of_isHexDigit {c : Char} (h : isHexDigit c = true) :
    Utf8.encodeChar c = [UInt8.ofNat c.toNat] := by
  have hascii := Hex.toNat_of_isHexDigit h
  simp [Utf8.encodeChar, hascii]

/-- The bytes of digits are those that are taken for digits. -/
theorem isDigitByte_iff (b : UInt8) : isDigitByte b = true ↔ IsDigitCode b := by
  constructor
  · intro h
    simp only [isDigitByte, Bool.and_eq_true, decide_eq_true_eq] at h
    obtain ⟨hascii, hdigit⟩ := h
    have hcodes : ∀ n < 128, (Char.ofNat n).toNat = n := by decide
    refine ⟨Char.ofNat b.toNat, hdigit, ?_⟩
    rw [encodeChar_of_isHexDigit hdigit, hcodes b.toNat hascii, UInt8.ofNat_toNat]
  · rintro ⟨c, hc, hcode⟩
    have hascii := Hex.toNat_of_isHexDigit hc
    rw [encodeChar_of_isHexDigit hc] at hcode
    obtain rfl : UInt8.ofNat c.toNat = b := by simpa using hcode
    have hnat : (UInt8.ofNat c.toNat).toNat = c.toNat :=
      UInt8.toNat_ofNat_of_lt' (show c.toNat < 256 by omega)
    rw [isDigitByte, hnat, Char.ofNat_toNat, hc]
    simpa using hascii

/-- A character outside of ASCII starts with a byte outside of ASCII. -/
theorem exists_mem_encodeChar {c : Char} (h : 128 ≤ c.toNat) :
    ∃ b ∈ Utf8.encodeChar c, 128 ≤ b.toNat := by
  have hbounds := Utf8.toNat_bounds c
  have hfirst (n : Nat) (hlarge : 128 ≤ n) (hsmall : n < 256) : 128 ≤ (UInt8.ofNat n).toNat := by
    rwa [UInt8.toNat_ofNat_of_lt' hsmall]
  simp only [Utf8.encodeChar]
  rw [if_neg (by omega)]
  split
  · exact ⟨_, List.mem_cons_self, hfirst _ (by omega) (by omega)⟩
  · split
    · exact ⟨_, List.mem_cons_self, hfirst _ (by omega) (by omega)⟩
    · exact ⟨_, List.mem_cons_self, hfirst _ (by omega) (by omega)⟩

/-- A character is a digit exactly if all its bytes are taken for digits. -/
theorem forall_isDigitByte_iff (c : Char) :
    (∀ b ∈ Utf8.encodeChar c, isDigitByte b = true) ↔ isHexDigit c = true := by
  constructor
  · intro h
    by_cases hascii : c.toNat < 128
    · have hnat : (UInt8.ofNat c.toNat).toNat = c.toNat :=
        UInt8.toNat_ofNat_of_lt' (show c.toNat < 256 by omega)
      have hbyte := h (UInt8.ofNat c.toNat) (by simp [Utf8.encodeChar, hascii])
      rw [isDigitByte, hnat, Char.ofNat_toNat, Bool.and_eq_true] at hbyte
      exact hbyte.2
    · obtain ⟨b, hb, hlarge⟩ := exists_mem_encodeChar (Nat.le_of_not_lt hascii)
      have hbyte := h b hb
      simp only [isDigitByte, Bool.and_eq_true, decide_eq_true_eq] at hbyte
      omega
  · intro h b hb
    rw [encodeChar_of_isHexDigit h, List.mem_singleton] at hb
    exact (isDigitByte_iff b).mpr ⟨c, h, by rw [hb, encodeChar_of_isHexDigit h]⟩

/-- Text is digits exactly if all its bytes are taken for digits. -/
theorem forall_isDigitByte_encode_iff (cs : List Char) :
    (∀ b ∈ Utf8.encode cs, isDigitByte b = true) ↔ ∀ c ∈ cs, isHexDigit c = true := by
  simp only [Utf8.encode, List.mem_flatMap, forall_exists_index, and_imp]
  constructor
  · intro h c hc
    exact (forall_isDigitByte_iff c).mp fun b hb => h b c hc hb
  · intro h b c hc hb
    exact (forall_isDigitByte_iff c).mpr (h c hc) b hb

/-- Digits have as many bytes as characters. -/
theorem size_of_isHexDigit {cs : List Char} (h : ∀ c ∈ cs, isHexDigit c = true) :
    Utf8.size cs = cs.length := by
  unfold Utf8.size Utf8.encode
  induction cs with
  | nil => rfl
  | cons c cs ih =>
    obtain ⟨hc, hcs⟩ := List.forall_mem_cons.mp h
    rw [List.flatMap_cons, List.length_append, encodeChar_of_isHexDigit hc, ih hcs,
      List.length_singleton, List.length_cons, Nat.add_comm]

/-- The first byte that is not taken for a digit is found, with its index, if there is one. -/
theorem firstBad?_cases (bytes : List UInt8) (index : Nat) :
    (firstBad? index bytes = none ∧ ∀ b ∈ bytes, isDigitByte b = true) ∨
      ∃ b k, firstBad? index bytes = some (b, index + k) ∧ IsFirstBad bytes b k := by
  induction bytes generalizing index with
  | nil => exact .inl ⟨rfl, by simp⟩
  | cons b bytes ih =>
    by_cases hb : isDigitByte b = true
    · rw [firstBad?, if_pos hb]
      rcases ih (index + 1) with ⟨hnone, hall⟩ | ⟨bad, k, hfound, before, after, rfl, rfl, hbad, hall⟩
      · exact .inl ⟨hnone, List.forall_mem_cons.mpr ⟨hb, hall⟩⟩
      · refine .inr ⟨bad, before.length + 1, ?_, b :: before, after, rfl, rfl, hbad, ?_⟩
        · rw [hfound, Nat.add_right_comm, Nat.add_assoc]
        · exact List.forall_mem_cons.mpr ⟨(isDigitByte_iff b).mp hb, hall⟩
    · refine .inr ⟨b, 0, by rw [firstBad?, if_neg hb]; rfl, [], bytes, rfl, rfl, ?_, by simp⟩
      rwa [← isDigitByte_iff]

/-! ## Digits -/

/-- What comes of digits: bytes of which they are the digits, or the fault of an odd number of bytes,
or else that of the first byte that is no digit. -/
inductive IsOutcome (cs : List Char) : Except HexFault (List UInt8) → Prop where
  /-- The number of bytes is odd. -/
  | odd (h : Utf8.size cs % 2 = 1) : IsOutcome cs (.error .oddLength)
  /-- A byte is no digit. -/
  | bad {b : UInt8} {index : Nat} (heven : Utf8.size cs % 2 = 0)
      (h : IsFirstBad (Utf8.encode cs) b index) : IsOutcome cs (.error (.badDigit b index))
  /-- There are digits only, in pairs. -/
  | good {bs : List UInt8} (heven : cs.length % 2 = 0) (hdigits : ∀ c ∈ cs, isHexDigit c = true)
      (h : cs.map lowerAscii = Hex.digits bs) : IsOutcome cs (.ok bs)

/-- One of the three cases comes of any text. -/
theorem isOutcome_ofDigits (cs : List Char) : IsOutcome cs (ofDigits cs) := by
  unfold ofDigits
  dsimp only
  by_cases hodd : Utf8.size cs % 2 = 1
  · rw [if_pos (by simpa [Utf8.size] using hodd)]
    exact .odd hodd
  · have heven : Utf8.size cs % 2 = 0 := by omega
    rw [if_neg (by simpa [Utf8.size] using hodd)]
    rcases firstBad?_cases (Utf8.encode cs) 0 with ⟨hnone, hall⟩ | ⟨b, k, hfound, hfirst⟩
    · have hdigits := (forall_isDigitByte_encode_iff cs).mp hall
      rw [size_of_isHexDigit hdigits] at heven
      obtain ⟨bs, hread, hlower⟩ := Hex.exists_bytes_of_isHexDigit cs hdigits heven
      rw [hnone, hread]
      exact .good heven hdigits hlower
    · rw [hfound, Nat.zero_add]
      exact .bad heven hfirst

/-- Digits in either case are read as the bytes of which they are the digits. -/
theorem ofDigits_of_map_lowerAscii {cs : List Char} {bs : List UInt8}
    (h : cs.map lowerAscii = Hex.digits bs) : ofDigits cs = .ok bs := by
  obtain ⟨hdigits, hlength⟩ := Hex.isHexDigit_of_map_lowerAscii h
  have hsize := size_of_isHexDigit hdigits
  cases hread : ofDigits cs with
  | error e =>
    exfalso
    have houtcome := isOutcome_ofDigits cs
    rw [hread] at houtcome
    cases houtcome with
    | odd hodd => omega
    | bad heven hfirst =>
      obtain ⟨before, after, hbytes, -, hbad, -⟩ := hfirst
      rw [← isDigitByte_iff] at hbad
      refine hbad ((forall_isDigitByte_encode_iff cs).mpr hdigits _ ?_)
      simp [hbytes]
  | ok bytes =>
    have houtcome := isOutcome_ofDigits cs
    rw [hread] at houtcome
    cases houtcome with
    | good heven hall hlower => rw [Hex.digits_inj (hlower.symm.trans h)]

/-! ## Marks and blanks -/

/-- The digits of a text are what is left without the blanks around it and without one mark. -/
theorem isUnmarked_digits (cs : List Char) : IsUnmarked (trim cs) (digits cs) := by
  unfold digits after?
  dsimp only
  generalize trim cs = text
  by_cases hlower : ['0', 'x'] <+: text
  · obtain ⟨rest, rfl⟩ := hlower
    exact .lower rest
  · by_cases hupper : ['0', 'X'] <+: text
    · obtain ⟨rest, rfl⟩ := hupper
      exact .upper rest
    · rw [← List.isPrefixOf_iff_prefix] at hlower hupper
      rw [if_neg hlower, if_neg hupper]
      refine .bare ?_ ?_
      · rintro rest rfl
        exact hlower rfl
      · rintro rest rfl
        exact hupper rfl

/-- What is left without a mark is a text behind one, or behind nothing. -/
theorem IsUnmarked.exists_mark {cs rest : List Char} (h : IsUnmarked cs rest) :
    ∃ mark, IsMark mark ∧ cs = mark ++ rest := by
  cases h with
  | lower => exact ⟨['0', 'x'], .inr (.inl rfl), rfl⟩
  | upper => exact ⟨['0', 'X'], .inr (.inr rfl), rfl⟩
  | bare => exact ⟨[], .inl rfl, rfl⟩

/-- Digits behind a mark, or behind nothing, are what is left: no digit is the letter of a mark. -/
theorem IsUnmarked.eq_of_isHexDigit {cs rest mark ds : List Char} (h : IsUnmarked cs rest)
    (hmark : IsMark mark) (hds : ∀ c ∈ ds, isHexDigit c = true) (heq : cs = mark ++ ds) :
    rest = ds := by
  have hx : isHexDigit 'x' = false ∧ isHexDigit 'X' = false := by decide
  rcases hmark with rfl | rfl | rfl
  · rw [List.nil_append] at heq
    cases h with
    | lower rest => simp [← heq, hx] at hds
    | upper rest => simp [← heq, hx] at hds
    | bare => exact heq
  · cases h with
    | lower rest => simpa using heq
    | upper rest => simp at heq
    | bare hlower => exact absurd heq (hlower ds)
  · cases h with
    | lower rest => simp at heq
    | upper rest => simpa using heq
    | bare _ hupper => exact absurd heq (hupper ds)

/-- A text writes bytes exactly if its digits in lower case are those of the bytes. -/
theorem writes_iff (s : String) (bs : List UInt8) :
    Writes s bs ↔ (digits s.toList).map lowerAscii = Hex.digits bs := by
  have hunmarked := isUnmarked_digits s.toList
  constructor
  · rintro ⟨mark, ds, hmark, htrim, -, hds, hlower⟩
    rw [hunmarked.eq_of_isHexDigit hmark hds htrim, hlower]
  · intro h
    obtain ⟨hdigits, hlength⟩ := Hex.isHexDigit_of_map_lowerAscii h
    obtain ⟨mark, hmark, htrim⟩ := hunmarked.exists_mark
    exact ⟨mark, _, hmark, htrim, by omega, hdigits, h⟩

/-- No mark has a blank. -/
theorem isBlank_of_isMark {mark : List Char} (h : IsMark mark) : ∀ c ∈ mark, isBlank c = false := by
  have hblank : isBlank '0' = false ∧ isBlank 'x' = false ∧ isBlank 'X' = false := by decide
  rcases h with rfl | rfl | rfl
  · simp
  · simp [hblank]
  · simp [hblank]

/-- Digits between blanks and behind a mark, or behind nothing, write the bytes of which they are the
digits in lower case. -/
theorem writes_of_gaps {before mark ds after : List Char} {bs : List UInt8}
    (hbefore : IsGap before) (hafter : IsGap after) (hmark : IsMark mark)
    (h : ds.map lowerAscii = Hex.digits bs) :
    Writes (String.ofList (before ++ ((mark ++ ds) ++ after))) bs := by
  obtain ⟨hdigits, hlength⟩ := Hex.isHexDigit_of_map_lowerAscii h
  have hblank : ∀ c ∈ mark ++ ds, isBlank c = false := by
    intro c hc
    rcases List.mem_append.mp hc with hc | hc
    · exact isBlank_of_isMark hmark c hc
    · exact Hex.isBlank_of_isHexDigit (hdigits c hc)
  refine ⟨mark, ds, hmark, ?_, by omega, hdigits, h⟩
  rw [String.toList_ofList, trim_of_gaps hbefore hafter (isTight_of_forall hblank)]

/-- The wording of an odd number of bytes is that of no other fault. -/
theorem message_oddLength_ne (b : UInt8) (index : Nat) :
    HexFault.oddLength.message ≠ (HexFault.badDigit b index).message := by
  have hodd : HexFault.oddLength.message.toList.head? = some 'O' := rfl
  have hbad : (HexFault.badDigit b index).message.toList.head? = some 'I' := by
    unfold HexFault.message
    rw [String.toList_append, String.toList_append, List.append_assoc]
    rfl
  intro h
  rw [h, hbad] at hodd
  cases hodd

section

variable (s : String)

/-- A payload is read exactly if it writes bytes, and as these. -/
theorem parse_eq_ok_iff (bs : List UInt8) : parse s = .ok bs ↔ Writes s bs := by
  rw [writes_iff]
  constructor
  · intro h
    have houtcome := isOutcome_ofDigits (digits s.toList)
    rw [ok_of_mapError h] at houtcome
    cases houtcome with
    | good _ _ hlower => exact hlower
  · intro h
    unfold parse
    rw [ofDigits_of_map_lowerAscii h]
    rfl

/-- The odd number of bytes is the fault exactly if the number is odd. -/
theorem parse_eq_oddLength_iff :
    parse s = .error (.malformedPayload HexFault.oddLength.message) ↔
      Utf8.size (digits s.toList) % 2 = 1 := by
  have houtcome := isOutcome_ofDigits (digits s.toList)
  unfold parse
  generalize ofDigits (digits s.toList) = outcome at houtcome ⊢
  cases houtcome with
  | odd hodd => exact iff_of_true rfl hodd
  | @bad b index heven _ =>
    refine iff_of_false ?_ (by omega)
    intro h
    have hmessage := DecodeFault.malformedPayload.inj (Except.error.inj h)
    exact message_oddLength_ne b index hmessage.symm
  | good heven hdigits _ =>
    rw [← size_of_isHexDigit hdigits] at heven
    refine iff_of_false ?_ (by omega)
    intro h
    cases h

/-- If the number of bytes is even and no bytes are written, the first byte that is no digit is the
fault. -/
theorem exists_firstBad_of_parse (heven : Utf8.size (digits s.toList) % 2 = 0)
    (hnone : ∀ bs, ¬Writes s bs) :
    ∃ b index, IsFirstBad (Utf8.encode (digits s.toList)) b index ∧
      parse s = .error (.malformedPayload (HexFault.badDigit b index).message) := by
  have houtcome := isOutcome_ofDigits (digits s.toList)
  unfold parse
  generalize ofDigits (digits s.toList) = outcome at houtcome ⊢
  cases houtcome with
  | odd hodd => omega
  | @bad b index _ hfirst => exact ⟨b, index, hfirst, rfl⟩
  | @good bs _ _ hlower => exact absurd ((writes_iff s bs).mpr hlower) (hnone bs)

/-- A payload is read exactly if it writes bytes, and as these; so are the digits of any bytes, in
whatever case, between blanks and with a mark or without. What else there is has a fault, for an odd
number of bytes behind the mark, and otherwise for the first of them that is no digit. -/
theorem digits_read_back :
    (∀ bs, parse s = .ok bs ↔ Writes s bs) ∧
    (∀ before mark ds after bs, IsGap before → IsGap after → IsMark mark →
      ds.map lowerAscii = Hex.digits bs →
      parse (String.ofList (before ++ ((mark ++ ds) ++ after))) = .ok bs) ∧
    ∃ rest, IsUnmarked (trim s.toList) rest ∧
      (parse s = .error (.malformedPayload HexFault.oddLength.message) ↔
        Utf8.size rest % 2 = 1) ∧
      (Utf8.size rest % 2 = 0 → (∀ bs, ¬Writes s bs) → ∃ b index,
        IsFirstBad (Utf8.encode rest) b index ∧
        parse s = .error (.malformedPayload (HexFault.badDigit b index).message)) := by
  refine ⟨parse_eq_ok_iff s, ?_, digits s.toList, isUnmarked_digits s.toList,
    parse_eq_oddLength_iff s, exists_firstBad_of_parse s⟩
  intro before mark ds after bs hbefore hafter hmark hlower
  exact (parse_eq_ok_iff _ bs).mpr (writes_of_gaps hbefore hafter hmark hlower)

end

/-- Digits of both cases behind a mark of upper case are read, and the first byte of a letter that is no
digit is found, behind one digit. -/
theorem mixedCase_read_back :
    (IsGap [' '] ∧ IsGap ['\n'] ∧ IsMark ['0', 'X'] ∧
      ['a', 'B', 'c', 'D'].map lowerAscii = Hex.digits [0xAB, 0xCD] ∧
      parse " 0XaBcD\n" = .ok [0xAB, 0xCD]) ∧
    (∀ bs, ¬Writes "0xaéb" bs) ∧
    ∃ rest, IsUnmarked (trim "0xaéb".toList) rest ∧ Utf8.size rest % 2 = 0 ∧ ∃ b index,
      IsFirstBad (Utf8.encode rest) b index ∧
      parse "0xaéb" = .error (.malformedPayload (HexFault.badDigit b index).message) := by
  have hblank : IsGap [' '] := by decide
  have hbreak : IsGap ['\n'] := by decide
  have hmark : IsMark ['0', 'X'] := .inr (.inr rfl)
  have hlower : ['a', 'B', 'c', 'D'].map lowerAscii = Hex.digits [0xAB, 0xCD] := by decide
  have hread := (digits_read_back "").2.1 _ _ _ _ _ hblank hbreak hmark hlower
  have hnone : ∀ bs, ¬Writes "0xaéb" bs := by
    intro bs hwrites
    have hdigits := (Hex.isHexDigit_of_map_lowerAscii ((writes_iff _ bs).mp hwrites)).1
    have hletter : 'é' ∈ digits "0xaéb".toList := by decide
    have hnot : isHexDigit 'é' = false := by decide
    rw [hdigits 'é' hletter] at hnot
    cases hnot
  obtain ⟨-, -, rest, hrest, -, hbad⟩ := digits_read_back "0xaéb"
  have htrim : trim "0xaéb".toList = '0' :: 'x' :: ['a', 'é', 'b'] := by decide
  have heven : Utf8.size rest % 2 = 0 := by
    rw [htrim] at hrest
    cases hrest with
    | lower => decide
    | bare hlower => exact absurd rfl (hlower ['a', 'é', 'b'])
  exact ⟨⟨hblank, hbreak, hmark, hlower, hread⟩, hnone, rest, hrest, heven, hbad heven hnone⟩

end RollupInput.Payload
