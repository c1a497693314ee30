import Mathlib.Data.List.Forall2
import RollupInput.Proofs.Abi.Success

/-!
# Appended bytes

Bytes behind data that is decoded change nothing. A reader looks at the end of the data only to see
that something does not reach beyond it, so every check that is passed is passed in longer data too,
and what is read stands where it stood. A misfit may well turn into a value; therefore the relation
between the two readings is one-sided, and it is kept by going on with what was read.
-/

namespace RollupInput.Abi

namespace Weighed

variable {α β : Type} {x y : Weighed α}

/-- Whether a reading persists as another: the other is the same, room included, unless the first
comes to a misfit. -/
def PersistsAs (x y : Weighed α) : Prop := ∀ a, x.outcome = .ok a → y = x

/-- A reading persists as itself. -/
theorem PersistsAs.refl (x : Weighed α) : x.PersistsAs x := fun _ _ => rfl

/-- A misfit persists as whatever comes in its place. -/
theorem persistsAs_of_error {e : Misfit} (h : x.outcome = .error e) : x.PersistsAs y := by
  intro a ha
  rw [h] at ha
  cases ha

/-- A reading that is gone on with persists if it does, and what comes of each of its values. -/
theorem PersistsAs.bind {f g : α → Weighed β} (h : x.PersistsAs y)
    (hf : ∀ a, x.outcome = .ok a → (f a).PersistsAs (g a)) : (x >>= f).PersistsAs (y >>= g) := by
  intro b hb
  obtain ⟨a, ha, hfa⟩ := outcome_of_bind hb
  obtain ⟨weight, outcome⟩ := x
  cases ha
  have hy : y = ⟨weight, .ok a⟩ := h a rfl
  have hg : g a = f a := hf a rfl b hfa
  rw [hy]
  show Weighed.mk (weight + (g a).weight) (g a).outcome = _
  rw [hg]
  rfl

/-- A reading whose value is changed persists if it does. -/
theorem PersistsAs.map {f : α → β} (h : x.PersistsAs y) : (f <$> x).PersistsAs (f <$> y) := by
  intro b hb
  obtain ⟨a, ha, -⟩ := outcome_of_map hb
  rw [h a ha]

end Weighed

open Weighed

section

variable (data more : Array UInt8) (pos n : Nat)

/-- Bytes of data are the bytes there of longer data. -/
theorem bytesAt_persists : (bytesAt data pos n).PersistsAs (bytesAt (data ++ more) pos n) := by
  by_cases hend : data.size < pos + n
  · have hfail : bytesAt data pos n = .fail .overrun := if_pos hend
    exact persistsAs_of_error (congrArg outcome hfail)
  · have hlong : ¬(data ++ more).size < pos + n := by
      rw [Array.size_append]
      omega
    have hbehind : pos + n - data.size = 0 := by omega
    unfold bytesAt
    rw [if_neg hend, if_neg hlong, Array.extract_append, hbehind, Array.extract_zero,
      Array.append_empty]
    exact .refl _

/-- A number of data is the number there of longer data. -/
theorem numberAt_persists : (numberAt data pos).PersistsAs (numberAt (data ++ more) pos) :=
  (bytesAt_persists data more pos wordBytes).bind fun _ _ => .refl _

/-- An offset in data leads to the same position in longer data. -/
theorem follow_persists (depth base : Nat) :
    (follow data depth base pos).PersistsAs (follow (data ++ more) depth base pos) := by
  refine (numberAt_persists data more pos).bind fun offset _ => ?_
  refine (PersistsAs.refl (openAt depth)).bind fun _ _ => ?_
  by_cases hend : data.size < base + offset
  · rw [if_pos hend]
    exact persistsAs_of_error rfl
  · have hlong : ¬(data ++ more).size < base + offset := by
      rw [Array.size_append]
      omega
    rw [if_neg hend, if_neg hlong]
    exact .refl _

end

/-- Whether a reader of values persists as another: its places are as large, and its readings
persist. -/
structure ValueReader.PersistsAs (reader longer : ValueReader) : Prop where
  /-- The places are as large. -/
  placeBytes_eq : longer.placeBytes = reader.placeBytes
  /-- The readings persist. -/
  read (base pos : Nat) : (reader.read base pos).PersistsAs (longer.read base pos)

/-- A row of values persists if their reader does. -/
theorem readRow_persists {reader longer : ValueReader} (h : reader.PersistsAs longer)
    (base n pos : Nat) : (readRow reader base n pos).PersistsAs (readRow longer base n pos) := by
  induction n generalizing pos with
  | zero => exact .refl _
  | succ n ih =>
    rw [readRow, readRow, h.placeBytes_eq]
    refine (h.read base pos).bind fun v _ => ?_
    exact (ih (pos + reader.placeBytes)).bind fun rest _ => .refl _

/-- Places that follow each other are as large if the readers persist. -/
theorem placesBytes_of_persists {readers longer : List ValueReader}
    (h : List.Forall₂ ValueReader.PersistsAs readers longer) :
    placesBytes longer = placesBytes readers := by
  induction h with
  | nil => rfl
  | cons hfirst _ ih => rw [placesBytes, placesBytes, hfirst.placeBytes_eq, ih]

/-- Values of several types persist if their readers do. -/
theorem readEach_persists {readers longer : List ValueReader}
    (h : List.Forall₂ ValueReader.PersistsAs readers longer) (base pos : Nat) :
    (readEach base readers pos).PersistsAs (readEach base longer pos) := by
  induction h generalizing pos with
  | nil => exact .refl _
  | @cons reader other _ _ hfirst _ ih =>
    rw [readEach, readEach, hfirst.placeBytes_eq]
    refine (hfirst.read base pos).bind fun v _ => ?_
    exact (ih (pos + reader.placeBytes)).bind fun rest _ => .refl _

section

variable (data more : Array UInt8) (depth : Nat)

/-- Words persist. -/
theorem wordReader_persists (interpret : List UInt8 → Value) :
    (wordReader data interpret).PersistsAs (wordReader (data ++ more) interpret) where
  placeBytes_eq := rfl
  read _ pos := (bytesAt_persists data more pos wordBytes).bind fun _ _ => .refl _

/-- Byte strings persist. -/
theorem blobReader_persists (interpret : List UInt8 → Value) :
    (blobReader data depth interpret).PersistsAs (blobReader (data ++ more) depth interpret) where
  placeBytes_eq := rfl
  read base pos := by
    refine (follow_persists data more pos depth base).bind fun start _ => ?_
    refine (numberAt_persists data more start).bind fun size _ => ?_
    exact (bytesAt_persists data more (start + wordBytes) size).bind fun _ _ => .refl _

/-- Values that are made of parts persist if the parts do. -/
theorem partsReader_persists {indirect : Bool} {size longerSize : Nat}
    {parts longerParts : Nat → Weighed Value} (hsize : longerSize = size)
    (hparts : ∀ start, (parts start).PersistsAs (longerParts start)) :
    (partsReader data depth indirect size parts).PersistsAs
      (partsReader (data ++ more) depth indirect longerSize longerParts) where
  placeBytes_eq := by rw [hsize]; rfl
  read base pos := by
    cases indirect with
    | true => exact (follow_persists data more pos depth base).bind fun start _ => hparts start
    | false => exact (PersistsAs.refl (openAt depth)).bind fun _ _ => hparts pos

/-- The elements of an array of any size persist: a length that promises no more words than are left
does not promise more than are left in longer data. -/
theorem arrayAt_persists {element : AbiType} {reader longer : ValueReader}
    (h : reader.PersistsAs longer) (start : Nat) :
    (arrayAt data depth element reader start).PersistsAs
      (arrayAt (data ++ more) depth element longer start) := by
  unfold arrayAt
  refine (numberAt_persists data more start).bind fun size _ => ?_
  dsimp only
  split
  · exact .refl _
  · refine (PersistsAs.refl (openAt depth)).bind fun _ _ => ?_
    by_cases hend : (data.size - (start + wordBytes)) / wordBytes < size * element.leastWords
    · rw [if_pos hend]
      exact persistsAs_of_error rfl
    · have hmore : (data.size - (start + wordBytes)) / wordBytes ≤
          ((data ++ more).size - (start + wordBytes)) / wordBytes := by
        rw [Array.size_append]
        exact Nat.div_le_div_right (by omega)
      rw [if_neg hend, if_neg (by omega)]
      refine (PersistsAs.refl _).bind fun _ _ => ?_
      exact readRow_persists h (start + wordBytes) size (start + wordBytes)

/-- Arrays of any size persist if their elements do. -/
theorem arrayReader_persists {element : AbiType} {reader longer : ValueReader}
    (h : reader.PersistsAs longer) :
    (arrayReader data depth element reader).PersistsAs
      (arrayReader (data ++ more) depth element longer) where
  placeBytes_eq := rfl
  read base pos := by
    dsimp only [arrayReader]
    simp only [LazyTable.get_ofFn]
    refine (follow_persists data more pos depth base).bind fun start _ => ?_
    exact (arrayAt_persists data more (depth + 1) h start).map

end

mutual

/-- Every reader of data persists as the reader of longer data. -/
theorem valueReader_persists (data more : Array UInt8) (depth : Nat) (t : AbiType) :
    (valueReader data depth t).PersistsAs (valueReader (data ++ more) depth t) := by
  cases t with
  | bytes => exact blobReader_persists data more depth _
  | string => exact blobReader_persists data more depth _
  | array element =>
    have helement := valueReader_persists data more (depth + 2) element
    rw [valueReader, valueReader]
    exact arrayReader_persists data more depth helement
  | fixedArray element size =>
    have helement := valueReader_persists data more (depth + 1) element
    rw [valueReader, valueReader]
    exact partsReader_persists data more depth (by rw [helement.placeBytes_eq]) fun start =>
      (readRow_persists helement start size start).map
  | tuple fields =>
    have hfields := fieldReaders_persist data more (depth + 1) fields
    rw [valueReader, valueReader]
    exact partsReader_persists data more depth (placesBytes_of_persists hfields) fun start =>
      (readEach_persists hfields start start).map
  | _ => exact wordReader_persists data more _

/-- The readers of several types persist, one for one. -/
theorem fieldReaders_persist (data more : Array UInt8) (depth : Nat) (ts : List AbiType) :
    List.Forall₂ ValueReader.PersistsAs (fieldReaders data depth ts)
      (fieldReaders (data ++ more) depth ts) := by
  cases ts with
  | nil => exact .nil
  | cons t rest =>
    rw [fieldReaders, fieldReaders]
    exact .cons (valueReader_persists data more depth t) (fieldReaders_persist data more depth rest)

end

variable {params : List Param} {types : List AbiType} {data : List UInt8} {vs : List Value}

/-- Data that is decoded for types is decoded alike with bytes behind it. -/
theorem decode_append [Memory] (h : decode types data = .ok vs) (more : List UInt8) :
    decode types (data ++ more) = .ok vs := by
  cases hempty : AbiType.allEmpty types with
  | true =>
    rw [decode_of_allEmpty hempty] at h ⊢
    exact h
  | false =>
    obtain ⟨hleast, hroom, hweight, hread⟩ := (decode_eq_ok_iff hempty).mp h
    have hsame : readEach 0 (fieldReaders (data ++ more).toArray 0 types) 0 =
        readEach 0 (fieldReaders data.toArray 0 types) 0 := by
      rw [← List.append_toArray]
      exact readEach_persists (fieldReaders_persist data.toArray more.toArray 0 types) 0 0 vs hread
    have hmore : data.length / wordBytes ≤ (data ++ more).length / wordBytes := by
      rw [List.length_append]
      exact Nat.div_le_div_right (Nat.le_add_right _ _)
    rw [decode_eq_ok_iff hempty, hsame]
    exact ⟨Nat.le_trans hleast hmore, hroom, hweight, hread⟩

/-- Data that is decoded for parameters is decoded alike with bytes behind it. -/
theorem decodeValues_append [Memory] (h : decodeValues params data = .ok vs) (more : List UInt8) :
    decodeValues params (data ++ more) = .ok vs := by
  by_cases hnone : params = []
  · rw [hnone, decodeValues_nil] at h ⊢
    exact h
  · obtain ⟨size, values, hsize, hle, hdecode, hvs⟩ := (decodeValues_eq_ok_iff hnone).mp h
    have hfits : size ≤ (data ++ more).length := by
      rw [List.length_append]
      omega
    exact (decodeValues_eq_ok_iff hnone).mpr
      ⟨size, values, hsize, hfits, decode_append hdecode more, hvs⟩

end RollupInput.Abi
