import RollupInput.Proofs.Abi.Measure
import RollupInput.Proofs.Abi.Placement
import RollupInput.Proofs.Abi.Success

/-!
# Reading static types

A value of a static type stands in place: its reader follows no offset and looks at nothing but the
words of the value. So it is read alike wherever these words stand, in whatever data.
-/

namespace RollupInput.Abi

namespace AbiType

mutual

/-- A value of a static type stands in place. -/
theorem isIndirect_of_static (t : AbiType) (h : t.isDynamic = false) : t.isIndirect = false := by
  cases t with
  | fixedArray element size =>
    rw [isDynamic] at h
    rw [isIndirect, isIndirect_of_static element h, Bool.and_false]
  | tuple fields =>
    rw [isDynamic] at h
    rw [isIndirect]
    exact anyIndirect_of_static fields h
  | bytes => cases h
  | string => cases h
  | array element => cases h
  | _ => rfl

/-- Values of static types stand in place. -/
theorem anyIndirect_of_static (ts : List AbiType) (h : anyDynamic ts = false) :
    anyIndirect ts = false := by
  cases ts with
  | nil => rfl
  | cons t rest =>
    rw [anyDynamic, Bool.or_eq_false_iff] at h
    rw [anyIndirect, isIndirect_of_static t h.1, anyIndirect_of_static rest h.2]
    rfl

end

end AbiType

/-- The place of a value of a static type takes its least words. -/
theorem placeBytes_of_static (data : Array UInt8) (depth : Nat) {t : AbiType}
    (h : t.isDynamic = false) :
    (valueReader data depth t).placeBytes = wordBytes * t.leastWords := by
  rw [placeBytes_valueReader, AbiType.isIndirect_of_static t h, if_neg Bool.false_ne_true]

variable {data data' : Array UInt8} {pos pos' : Nat} {bs : List UInt8}

/-- Bytes that stand in data are a first part and what comes behind it. -/
theorem StandsAt.split (h : StandsAt data pos bs) (n : Nat) (hn : n ≤ bs.length) :
    StandsAt data pos (bs.take n) ∧ StandsAt data (pos + n) (bs.drop n) := by
  rw [← List.take_append_drop n bs] at h
  have hright := h.right
  rw [List.length_take, Nat.min_eq_left hn] at hright
  exact ⟨h.left, hright⟩

/-- A word is read alike wherever it stands. -/
theorem read_wordReader_eq (interpret : List UInt8 → Value) {base base' : Nat}
    (h : StandsAt data pos bs) (h' : StandsAt data' pos' bs) (hlen : bs.length = wordBytes) :
    (wordReader data interpret).read base pos = (wordReader data' interpret).read base' pos' := by
  dsimp only [wordReader]
  rw [wordAt_of_standsAt h hlen, wordAt_of_standsAt h' hlen]

/-- A row of values is read alike wherever its bytes stand, if each of its values is. -/
theorem readRow_eq {reader reader' : ValueReader} {base base' words : Nat}
    (hplace : reader.placeBytes = wordBytes * words)
    (hplace' : reader'.placeBytes = wordBytes * words)
    (hread : ∀ pos pos' bs, StandsAt data pos bs → StandsAt data' pos' bs →
      bs.length = wordBytes * words → reader.read base pos = reader'.read base' pos')
    (n : Nat) (h : StandsAt data pos bs) (h' : StandsAt data' pos' bs)
    (hlen : bs.length = wordBytes * (n * words)) :
    readRow reader base n pos = readRow reader' base' n pos' := by
  induction n generalizing pos pos' bs with
  | zero => rfl
  | succ n ih =>
    have hlen' : bs.length = wordBytes * (n * words) + wordBytes * words := by
      rw [hlen, Nat.succ_mul, Nat.mul_add]
    obtain ⟨hfirst, hmore⟩ := h.split (wordBytes * words) (by omega)
    obtain ⟨hfirst', hmore'⟩ := h'.split (wordBytes * words) (by omega)
    have hone := hread pos pos' _ hfirst hfirst' (by rw [List.length_take]; omega)
    have hrest := ih hmore hmore' (by rw [List.length_drop]; omega)
    rw [readRow, readRow, hplace, hplace', hone, hrest]

mutual

/-- A value of a static type is read alike wherever its bytes stand. -/
theorem read_eq_of_static (depth : Nat) (t : AbiType) (hd : t.isDynamic = false)
    (base base' pos pos' : Nat) (bs : List UInt8) (h : StandsAt data pos bs)
    (h' : StandsAt data' pos' bs)
    (hlen : bs.length = wordBytes * t.leastWords) :
    (valueReader data depth t).read base pos = (valueReader data' depth t).read base' pos' := by
  cases t with
  | fixedArray element size =>
    have hi := AbiType.isIndirect_of_static _ hd
    rw [AbiType.isIndirect] at hi
    rw [AbiType.isDynamic] at hd
    rw [AbiType.leastWords] at hlen
    -- The elements stand in place too, so the base from which offsets would count has no part.
    have hrow := readRow_eq (placeBytes_of_static data (depth + 1) hd)
      (placeBytes_of_static data' (depth + 1) hd)
      (read_eq_of_static (depth + 1) element hd pos pos') size h h' hlen
    rw [valueReader, valueReader, hi]
    dsimp only [partsReader]
    rw [if_neg Bool.false_ne_true, if_neg Bool.false_ne_true, hrow]
  | tuple fields =>
    have hi := AbiType.isIndirect_of_static _ hd
    rw [AbiType.isIndirect] at hi
    rw [AbiType.isDynamic] at hd
    rw [AbiType.leastWords] at hlen
    have heach := readEach_eq_of_static (depth + 1) fields hd pos pos' pos pos' bs h h' hlen
    rw [valueReader, valueReader, hi]
    dsimp only [partsReader]
    rw [if_neg Bool.false_ne_true, if_neg Bool.false_ne_true, heach]
  | bytes => cases hd
  | string => cases hd
  | array element => cases hd
  | _ => exact read_wordReader_eq _ h h' hlen

/-- Values of static types are read alike wherever their bytes stand. -/
theorem readEach_eq_of_static (depth : Nat) (ts : List AbiType) (hd : AbiType.anyDynamic ts = false)
    (base base' pos pos' : Nat) (bs : List UInt8) (h : StandsAt data pos bs)
    (h' : StandsAt data' pos' bs)
    (hlen : bs.length = wordBytes * AbiType.leastWordsSum ts) :
    readEach base (fieldReaders data depth ts) pos =
      readEach base' (fieldReaders data' depth ts) pos' := by
  cases ts with
  | nil => rfl
  | cons t rest =>
    rw [AbiType.anyDynamic, Bool.or_eq_false_iff] at hd
    rw [AbiType.leastWordsSum, Nat.mul_add] at hlen
    obtain ⟨hfirst, hmore⟩ := h.split (wordBytes * t.leastWords) (by omega)
    obtain ⟨hfirst', hmore'⟩ := h'.split (wordBytes * t.leastWords) (by omega)
    have hone := read_eq_of_static depth t hd.1 base base' pos pos' _ hfirst hfirst'
      (by rw [List.length_take]; omega)
    have hrest := readEach_eq_of_static depth rest hd.2 base base' _ _ _ hmore hmore'
      (by rw [List.length_drop]; omega)
    rw [fieldReaders, fieldReaders, readEach, readEach, placeBytes_of_static data depth hd.1,
      placeBytes_of_static data' depth hd.1, hone, hrest]

end

/-- Values that are read one after the other take the room of the first and of the others. -/
theorem weight_of_readEach {reader : ValueReader} {readers : List ValueReader} {base : Nat}
    {vs : List Value} (h : (readEach base (reader :: readers) pos).outcome = .ok vs) :
    (readEach base (reader :: readers) pos).weight = (reader.read base pos).weight +
      (readEach base readers (pos + reader.placeBytes)).weight := by
  obtain ⟨v, rest, -, hv, hrest⟩ := exists_of_readEach h
  rw [readEach]
  generalize reader.read base pos = first at hv ⊢
  generalize readEach base readers (pos + reader.placeBytes) = others at hrest ⊢
  obtain ⟨weight, outcome⟩ := first
  obtain ⟨more, outcome'⟩ := others
  cases hv
  cases hrest
  rfl

/-- The bytes of a static value by themselves are read as the value that is read from them where
they stand, if there is room for the rows of the type. -/
theorem decode_of_static [Memory] {t : AbiType} {v : Value} (hd : t.isDynamic = false)
    (hs : t.isSolid = true) (hroom : t.shortage 0 = none) (hbs : StandsAt data pos bs)
    (hlen : bs.length = wordBytes * t.leastWords)
    (hread : ((valueReader data 0 t).read 0 pos).outcome = .ok v)
    (hweight : ((valueReader data 0 t).read 0 pos).weight ≤ maxRoom) : decode [t] bs = .ok [v] := by
  have hempty : AbiType.allEmpty [t] = false := by
    rw [AbiType.allEmpty, AbiType.isEmpty_eq_false t hs, Bool.false_and]
  have hsame := read_eq_of_static 0 t hd 0 0 0 pos bs (StandsAt.whole bs) hbs hlen
  have hone : readEach 0 (fieldReaders bs.toArray 0 [t]) 0 =
      ⟨((valueReader data 0 t).read 0 pos).weight, .ok [v]⟩ := by
    rw [fieldReaders, fieldReaders, readEach, hsame]
    generalize (valueReader data 0 t).read 0 pos = first at hread ⊢
    obtain ⟨weight, outcome⟩ := first
    cases hread
    rfl
  rw [decode_eq_ok_iff hempty, hone]
  refine ⟨?_, ?_, hweight, rfl⟩
  · rw [AbiType.leastWordsSum, AbiType.leastWordsSum, Nat.add_zero, hlen]
    exact Nat.le_of_eq (Nat.mul_div_cancel_left _ (by decide)).symm
  · rw [AbiType.firstShortage, hroom]
    rfl

/-- The bytes of the value of a static parameter by themselves are decoded as the value that is read
from them where they stand, if the type has a head, and room for its rows. -/
theorem decodeValues_of_static [Memory]
    {p : Param} {v : Value} {n : Nat} (hd : p.type.isDynamic = false)
    (hs : p.type.isSolid = true) (hhead : p.type.wordsInHead = some n) (hn : n * 32 < wordLimit)
    (hroom : p.type.shortage 0 = none) (hbs : StandsAt data pos bs)
    (hlen : bs.length = wordBytes * p.type.leastWords)
    (hread : ((valueReader data 0 p.type).read 0 pos).outcome = .ok v)
    (hweight : ((valueReader data 0 p.type).read 0 pos).weight ≤ maxRoom) :
    decodeValues [p] bs = .ok [label p.components v] := by
  obtain ⟨hhides, -, rfl⟩ := p.type.wordsInHead_eq_some_iff.mp hhead
  have hwords : wordBytes * AbiType.headWordsSum ([p].map Param.type) = bs.length := by
    rw [hlen, ← AbiType.headWords_of_static p.type hd]
    rfl
  have hsize : Param.headBytes [p] = some bs.length := by
    rw [Param.headBytes_eq_some_iff, hwords]
    refine ⟨?_, ?_, rfl⟩
    · rw [List.map_cons, AbiType.anyHidesOverflow, hhides]
      rfl
    · rw [← AbiType.headWords_of_static p.type hd, Nat.mul_comm] at hlen
      rw [hlen]
      exact hn
  have hvalue := decode_of_static hd hs hroom hbs hlen hread hweight
  exact (decodeValues_eq_ok_iff (List.cons_ne_nil p [])).mpr
    ⟨bs.length, [v], hsize, Nat.le_refl _, hvalue, rfl⟩

/-- The head of parameters is that of the first and the heads of the others. -/
theorem exists_of_headBytesFrom {p : Param} {params : List Param} {total size : Nat}
    (h : Param.headBytesFrom total (p :: params) = some size) :
    ∃ n, p.type.wordsInHead = some n ∧ n * 32 < wordLimit ∧
      ∃ sum, Param.headBytesFrom sum params = some size := by
  rw [Param.headBytesFrom] at h
  obtain ⟨n, hn, h⟩ := Option.bind_eq_some_iff.mp h
  obtain ⟨bytes, hbytes, h⟩ := Option.bind_eq_some_iff.mp h
  obtain ⟨sum, -, h⟩ := Option.bind_eq_some_iff.mp h
  exact ⟨n, hn, (AbiType.counted_eq_some_iff.mp hbytes).1, sum, h⟩

end RollupInput.Abi
