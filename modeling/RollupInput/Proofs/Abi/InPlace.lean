import RollupInput.Proofs.Abi.EncodingSize
import RollupInput.Proofs.Abi.Label
import RollupInput.Proofs.Abi.Static
import RollupInput.Proofs.Abi.TooShort

/-!
# Values in place

A static type leads nowhere: its words stand one after the other, and its elementary parts take one
each. What is decoded for static types therefore has one leaf for each word of the head, in order.
Only two things can stop it once the data has the head, and neither depends on the data: a row of
cells for which there is no room, and containers that nest too deep.
-/

namespace RollupInput.Abi

mutual

/-- The elementary values of a value from left to right. -/
def Value.leaves : Value → List Value
  | .array items => leavesOf items
  | .tuple items => leavesOf items
  | .struct fields => leavesOfFields fields
  | v => [v]

/-- The elementary values of the values of a list. -/
def leavesOf : List Value → List Value
  | [] => []
  | v :: rest => v.leaves ++ leavesOf rest

/-- The elementary values of named fields. -/
def leavesOfFields : List (String × Value) → List Value
  | [] => []
  | (_, v) :: rest => v.leaves ++ leavesOfFields rest

end

mutual

/-- Taking the names off a value keeps its elementary values. -/
theorem leaves_plain (v : Value) : v.plain.leaves = v.leaves := by
  cases v with
  | array items => rw [Value.plain, Value.leaves, Value.leaves, leavesOf_plainItems items]
  | tuple items => rw [Value.plain, Value.leaves, Value.leaves, leavesOf_plainItems items]
  | struct fields => rw [Value.plain, Value.leaves, Value.leaves, leavesOf_plainFields fields]
  | _ => rfl

/-- The same for the values of a list. -/
theorem leavesOf_plainItems (vs : List Value) : leavesOf (plainItems vs) = leavesOf vs := by
  cases vs with
  | nil => rfl
  | cons v rest =>
    rw [plainItems, leavesOf, leavesOf, leaves_plain v, leavesOf_plainItems rest]

/-- The same for named fields. -/
theorem leavesOf_plainFields (fields : List (String × Value)) :
    leavesOf (plainFields fields) = leavesOfFields fields := by
  match fields with
  | [] => rfl
  | (_, v) :: rest =>
    rw [plainFields, leavesOf, leavesOfFields, leaves_plain v, leavesOf_plainFields rest]

end

/-- Names on the fields of a value keep its elementary values. -/
theorem leaves_label (components : List Param) (v : Value) :
    (label components v).leaves = v.leaves := by
  rw [← leaves_plain, plain_label, leaves_plain]

/-- Names of parameters keep the elementary values of as many values. -/
theorem leavesOf_zipWith_label {vs : List Value} {params : List Param}
    (h : vs.length = params.length) :
    leavesOf (List.zipWith (fun v (p : Param) => label p.components v) vs params) = leavesOf vs := by
  induction vs generalizing params with
  | nil => rfl
  | cons v vs ih =>
    cases params with
    | nil => cases h
    | cons p params =>
      rw [List.zipWith_cons_cons, leavesOf, leavesOf, leaves_label, ih (Nat.succ.inj h)]

namespace AbiType

mutual

/-- The elementary types of a static type from left to right. -/
def elementary : AbiType → List AbiType
  | .fixedArray element size => (List.replicate size (elementary element)).flatten
  | .tuple fields => elementaryOf fields
  | t => [t]

/-- The elementary types of the types of a list. -/
def elementaryOf : List AbiType → List AbiType
  | [] => []
  | t :: rest => elementary t ++ elementaryOf rest

end

mutual

/-- There is one elementary type for each of the least words of a type. -/
theorem length_elementary (t : AbiType) : t.elementary.length = t.leastWords := by
  cases t with
  | fixedArray element size =>
    rw [elementary, List.length_flatten, List.map_replicate, List.sum_replicate_nat,
      length_elementary element, leastWords]
  | tuple fields =>
    rw [elementary, leastWords]
    exact length_elementaryOf fields
  | _ => rfl

/-- There is one elementary type for each of the least words of types. -/
theorem length_elementaryOf (ts : List AbiType) : (elementaryOf ts).length = leastWordsSum ts := by
  cases ts with
  | nil => rfl
  | cons t rest =>
    rw [elementaryOf, List.length_append, length_elementary t, length_elementaryOf rest,
      leastWordsSum]

end

mutual

/-- A static type that is made of nothing has no words. -/
theorem leastWords_of_isEmpty (t : AbiType) (hd : t.isDynamic = false) (h : t.isEmpty = true) :
    t.leastWords = 0 := by
  cases t with
  | array element => cases hd
  | fixedArray element size =>
    rw [isDynamic] at hd
    rw [isEmpty, Bool.or_eq_true, beq_iff_eq] at h
    rw [leastWords]
    obtain hzero | hempty := h
    · rw [hzero, Nat.zero_mul]
    · rw [leastWords_of_isEmpty element hd hempty, Nat.mul_zero]
  | tuple fields =>
    rw [isDynamic] at hd
    rw [isEmpty] at h
    rw [leastWords]
    exact leastWordsSum_of_allEmpty fields hd h
  | _ => cases h

/-- Static types that are made of nothing have no words. -/
theorem leastWordsSum_of_allEmpty (ts : List AbiType) (hd : anyDynamic ts = false)
    (h : allEmpty ts = true) : leastWordsSum ts = 0 := by
  cases ts with
  | nil => rfl
  | cons t rest =>
    rw [anyDynamic, Bool.or_eq_false_iff] at hd
    rw [allEmpty, Bool.and_eq_true] at h
    rw [leastWordsSum, leastWords_of_isEmpty t hd.1 h.1, leastWordsSum_of_allEmpty rest hd.2 h.2]

end

end AbiType

/-- What a word is taken for as the value of an elementary type. -/
def wordValue : AbiType → List UInt8 → Value
  | .bool, word => .bool (word.any (· != 0))
  | .int _, word => .int (intOfWord word)
  | .uint _, word => .uint (natOfBytes word)
  | .address, word => .address (word.drop 12)
  | .fixedBytes size, word => .bytes (word.take size)
  | .function, word => .bytes (word.take 24)
  | _, word => .bytes word

/-- The word of data with an index, counted from its start. -/
def wordIn (data : List UInt8) (index : Nat) : List UInt8 :=
  (data.drop (wordBytes * index)).take wordBytes

/-- The values of elementary types that stand one after the other from a word of data on. -/
def wordValues (data : List UInt8) (first : Nat) (ts : List AbiType) : List Value :=
  ts.mapIdx fun index t => wordValue t (wordIn data (first + index))

/-- The values of two lists of types follow each other. -/
theorem wordValues_append (data : List UInt8) (first : Nat) (ts us : List AbiType) :
    wordValues data first (ts ++ us) =
      wordValues data first ts ++ wordValues data (first + ts.length) us := by
  unfold wordValues
  rw [List.mapIdx_append]
  simp only [Nat.add_assoc, Nat.add_comm ts.length]

variable {data : Array UInt8} {depth base first : Nat}

/-- Every word of data can be read. -/
theorem wordAt_of_le (h : wordBytes * (first + 1) ≤ data.size) :
    wordAt data (wordBytes * first) = pure (wordIn data.toList first) := by
  rw [Nat.mul_add, Nat.mul_one] at h
  have hword : (data.extract (wordBytes * first) (wordBytes * first + wordBytes)).toList =
      wordIn data.toList first := by
    rw [Array.toList_extract, List.extract_eq_take_drop, Nat.add_sub_cancel_left]
    rfl
  rw [wordAt, bytesAt, if_neg (Nat.not_lt.mpr h), hword]

/-- A value of a word type is the one that its word is taken for. -/
theorem read_word_inPlace {t : AbiType} (hw : t.isWord = true)
    (hfits : wordBytes * (first + 1) ≤ data.size) :
    ∃ v, (valueReader data depth t).read base (wordBytes * first) = pure v ∧
      v.leaves = wordValues data.toList first t.elementary := by
  have hread : (valueReader data depth t).read base (wordBytes * first) =
      (wordAt data (wordBytes * first) >>= fun word => pure (wordValue t word)) := by
    cases t <;> first | rfl | cases hw
  rw [wordAt_of_le hfits, pure_bind] at hread
  refine ⟨wordValue t (wordIn data.toList first), hread, ?_⟩
  cases t <;> first | rfl | cases hw

/-- Words that data has together with words behind them are in it. -/
theorem first_fits {words more size : Nat} (h : wordBytes * (first + words + more) ≤ size) :
    wordBytes * (first + words) ≤ size :=
  Nat.le_trans (Nat.mul_le_mul_left _ (Nat.le_add_right _ _)) h

/-- A row of values of one type has the leaves of its values, one after the other. -/
theorem readRow_inPlace {reader : ValueReader} {words : Nat} {ts : List AbiType}
    (hplace : reader.placeBytes = wordBytes * words) (hwords : ts.length = words)
    (hread : ∀ first, wordBytes * (first + words) ≤ data.size →
      ∃ v, reader.read base (wordBytes * first) = pure v ∧
        v.leaves = wordValues data.toList first ts)
    (n : Nat) (hfits : wordBytes * (first + n * words) ≤ data.size) :
    ∃ vs, readRow reader base n (wordBytes * first) = pure vs ∧
      leavesOf vs = wordValues data.toList first (List.replicate n ts).flatten := by
  induction n generalizing first with
  | zero => exact ⟨[], rfl, rfl⟩
  | succ n ih =>
    have hsum : first + (n + 1) * words = first + words + n * words := by
      rw [Nat.succ_mul]
      omega
    rw [hsum] at hfits
    obtain ⟨v, hv, hleaves⟩ := hread first (first_fits hfits)
    obtain ⟨rest, hrest, hmore⟩ := ih hfits
    refine ⟨v :: rest, ?_, ?_⟩
    · rw [readRow, hv, pure_bind, hplace, ← Nat.mul_add, hrest, pure_bind]
    · rw [leavesOf, hleaves, hmore, List.replicate_succ, List.flatten_cons, wordValues_append,
        hwords]

/-- The parts of a value in place are read from where the value stands. -/
theorem read_partsReader_inPlace {size : Nat} {parts : Nat → Weighed Value} {pos : Nat}
    (hd : depth < maxDepth) :
    (partsReader data depth false size parts).read base pos = parts pos := by
  dsimp only [partsReader]
  rw [if_neg Bool.false_ne_true, openAt_of_lt hd, pure_bind]

mutual

/-- A value of a static type that is not nested too deep is read where it stands, and its leaves are
the words there. -/
theorem read_inPlace (t : AbiType) (depth base first : Nat) (hd : t.isDynamic = false)
    (ho : t.openings + depth ≤ maxDepth)
    (hfits : wordBytes * (first + t.leastWords) ≤ data.size) :
    ∃ v, (valueReader data depth t).read base (wordBytes * first) = pure v ∧
      v.leaves = wordValues data.toList first t.elementary := by
  cases t with
  | fixedArray element size =>
    have hi := AbiType.isIndirect_of_static _ hd
    rw [AbiType.isIndirect] at hi
    rw [AbiType.isDynamic] at hd
    rw [AbiType.openings] at ho
    rw [AbiType.leastWords] at hfits
    obtain ⟨vs, hrow, hleaves⟩ := readRow_inPlace (placeBytes_of_static data (depth + 1) hd)
      element.length_elementary
      (fun n => read_inPlace element (depth + 1) (wordBytes * first) n hd (by omega)) size hfits
    refine ⟨.array vs, ?_, ?_⟩
    · rw [valueReader, hi, read_partsReader_inPlace (by omega), hrow, map_pure]
    · rw [Value.leaves, hleaves, AbiType.elementary]
  | tuple fields =>
    have hi := AbiType.isIndirect_of_static _ hd
    rw [AbiType.isIndirect] at hi
    rw [AbiType.isDynamic] at hd
    rw [AbiType.openings] at ho
    rw [AbiType.leastWords] at hfits
    obtain ⟨vs, heach, hleaves⟩ :=
      readEach_inPlace fields (depth + 1) (wordBytes * first) first hd (by omega) hfits
    refine ⟨.tuple vs, ?_, ?_⟩
    · rw [valueReader, hi, read_partsReader_inPlace (by omega), heach, map_pure]
    · rw [Value.leaves, hleaves, AbiType.elementary]
  | bytes => cases hd
  | string => cases hd
  | array element => cases hd
  -- All other types are single words.
  | _ => exact read_word_inPlace rfl hfits

/-- Values of static types that are not nested too deep are read one after the other, and their
leaves are the words there. -/
theorem readEach_inPlace (ts : List AbiType) (depth base first : Nat)
    (hd : AbiType.anyDynamic ts = false) (ho : AbiType.mostOpenings ts + depth ≤ maxDepth)
    (hfits : wordBytes * (first + AbiType.leastWordsSum ts) ≤ data.size) :
    ∃ vs, readEach base (fieldReaders data depth ts) (wordBytes * first) = pure vs ∧
      leavesOf vs = wordValues data.toList first (AbiType.elementaryOf ts) := by
  cases ts with
  | nil => exact ⟨[], rfl, rfl⟩
  | cons t rest =>
    rw [AbiType.anyDynamic, Bool.or_eq_false_iff] at hd
    rw [AbiType.mostOpenings] at ho
    rw [AbiType.leastWordsSum, ← Nat.add_assoc] at hfits
    obtain ⟨v, hv, hleaves⟩ := read_inPlace t depth base first hd.1 (by omega) (first_fits hfits)
    obtain ⟨vs, hvs, hmore⟩ :=
      readEach_inPlace rest depth base (first + t.leastWords) hd.2 (by omega) hfits
    refine ⟨v :: vs, ?_, ?_⟩
    · rw [fieldReaders, readEach, hv, pure_bind, placeBytes_of_static data depth hd.1,
        ← Nat.mul_add, hvs, pure_bind]
    · rw [leavesOf, hleaves, hmore, AbiType.elementaryOf, wordValues_append,
        AbiType.length_elementary]

end

/-- A value in place is too deep if its container is, or its parts are. -/
theorem read_partsReader_tooDeep {size : Nat} {parts : Nat → Weighed Value} {pos : Nat}
    (h : depth < maxDepth → parts pos = .fail .tooDeep) :
    (partsReader data depth false size parts).read base pos = .fail .tooDeep := by
  by_cases hd : depth < maxDepth
  · rw [read_partsReader_inPlace hd, h hd]
  · dsimp only [partsReader]
    rw [if_neg Bool.false_ne_true, openAt_of_ge (Nat.not_lt.mp hd), Weighed.fail_bind]

mutual

/-- A value of a static type with no array of no elements is too deep if its type is nested too
deep. -/
theorem read_tooDeep (t : AbiType) (depth base first : Nat) (hd : t.isDynamic = false)
    (hfilled : t.isFilled = true) (hdepth : depth ≤ maxDepth) (ho : maxDepth < t.openings + depth)
    (hfits : wordBytes * (first + t.leastWords) ≤ data.size) :
    (valueReader data depth t).read base (wordBytes * first) = .fail .tooDeep := by
  cases t with
  | fixedArray element size =>
    have hi := AbiType.isIndirect_of_static _ hd
    rw [AbiType.isIndirect] at hi
    rw [AbiType.isDynamic] at hd
    rw [AbiType.isFilled, Bool.and_eq_true, bne_iff_ne] at hfilled
    rw [AbiType.openings] at ho
    -- There is a first element, and it is as deep as the others.
    obtain ⟨n, rfl⟩ := Nat.exists_eq_succ_of_ne_zero hfilled.1
    rw [AbiType.leastWords, Nat.succ_mul, Nat.add_comm (n * _), ← Nat.add_assoc] at hfits
    rw [valueReader, hi]
    refine read_partsReader_tooDeep fun hopen => ?_
    rw [readRow, read_tooDeep element (depth + 1) _ first hd hfilled.2 hopen (by omega)
      (first_fits hfits), Weighed.fail_bind, Weighed.map_fail]
  | tuple fields =>
    have hi := AbiType.isIndirect_of_static _ hd
    rw [AbiType.isIndirect] at hi
    rw [AbiType.isDynamic] at hd
    rw [AbiType.isFilled] at hfilled
    rw [AbiType.openings] at ho
    rw [AbiType.leastWords] at hfits
    rw [valueReader, hi]
    refine read_partsReader_tooDeep fun hopen => ?_
    rw [readEach_tooDeep fields (depth + 1) _ first hd hfilled hopen (by omega) hfits,
      Weighed.map_fail]
  | bytes => cases hd
  | string => cases hd
  | array element => cases hd
  -- A word is as deep as it stands, which is not too deep.
  | _ =>
    have hdeep : maxDepth < 0 + depth := ho
    rw [Nat.zero_add] at hdeep
    exact absurd hdepth (Nat.not_le.mpr hdeep)

/-- Values of static types with no array of no elements are too deep if one of the types is nested
too deep: those in front of it are read. -/
theorem readEach_tooDeep (ts : List AbiType) (depth base first : Nat)
    (hd : AbiType.anyDynamic ts = false) (hfilled : AbiType.allFilled ts = true)
    (hdepth : depth ≤ maxDepth) (ho : maxDepth < AbiType.mostOpenings ts + depth)
    (hfits : wordBytes * (first + AbiType.leastWordsSum ts) ≤ data.size) :
    readEach base (fieldReaders data depth ts) (wordBytes * first) = .fail .tooDeep := by
  cases ts with
  | nil =>
    rw [AbiType.mostOpenings, Nat.zero_add] at ho
    exact absurd hdepth (Nat.not_le.mpr ho)
  | cons t rest =>
    rw [AbiType.anyDynamic, Bool.or_eq_false_iff] at hd
    rw [AbiType.allFilled, Bool.and_eq_true] at hfilled
    rw [AbiType.mostOpenings] at ho
    rw [AbiType.leastWordsSum, ← Nat.add_assoc] at hfits
    have hone := first_fits hfits
    rw [fieldReaders, readEach]
    by_cases hfirst : maxDepth < t.openings + depth
    · rw [read_tooDeep t depth base first hd.1 hfilled.1 hdepth hfirst hone, Weighed.fail_bind]
    · obtain ⟨v, hv, -⟩ := read_inPlace t depth base first hd.1 (Nat.not_lt.mp hfirst) hone
      rw [hv, pure_bind, placeBytes_of_static data depth hd.1, ← Nat.mul_add,
        readEach_tooDeep rest depth base (first + t.leastWords) hd.2 hfilled.2 hdepth (by omega)
          hfits, Weighed.fail_bind]

end

/-- The misfit that static types come to, whatever the data, if any: there is no room for their rows
of cells, or else they are nested too deep. Types that are made of nothing are never looked at. The
room depends on the memory, and on nothing but the types besides. -/
def AbiType.staticMisfit [Memory] (types : List AbiType) : Option Misfit :=
  if AbiType.allEmpty types then none
  else
    match AbiType.firstShortage 0 types with
    | some shortage => some (.noRoom shortage)
    | none => if maxDepth < AbiType.mostOpenings types then some .tooDeep else none

section

variable {types : List AbiType} {data : List UInt8}

/-- Types come to no misfit if they are made of nothing, or else if there is room for their rows of
cells and they are not nested too deep. -/
theorem AbiType.staticMisfit_eq_none_iff [Memory] :
    staticMisfit types = none ↔
      allEmpty types = true ∨ firstShortage 0 types = none ∧ mostOpenings types ≤ maxDepth := by
  unfold staticMisfit
  cases allEmpty types with
  | true => simp
  | false =>
    cases firstShortage 0 types with
    | some shortage => simp
    | none =>
      by_cases hdeep : maxDepth < mostOpenings types
      · simp [hdeep]
      · simp [hdeep, Nat.not_lt.mp hdeep]

/-- Types come to a misfit if they are made of something, and there is no room for one of their rows
of cells or else they are nested too deep. -/
theorem AbiType.staticMisfit_eq_some_iff [Memory] {misfit : Misfit} :
    staticMisfit types = some misfit ↔
      allEmpty types = false ∧
        ((∃ shortage, firstShortage 0 types = some shortage ∧ misfit = .noRoom shortage) ∨
          firstShortage 0 types = none ∧ maxDepth < mostOpenings types ∧ misfit = .tooDeep) := by
  unfold staticMisfit
  cases allEmpty types with
  | true => simp
  | false =>
    cases firstShortage 0 types with
    | some shortage => simp [eq_comm]
    | none => by_cases hdeep : maxDepth < mostOpenings types <;> simp [hdeep, eq_comm]

/-- Data that has the bytes of the words of types has their words. -/
theorem words_fit (hfits : wordBytes * AbiType.leastWordsSum types ≤ data.length) :
    AbiType.leastWordsSum types ≤ data.length / wordBytes := by
  rw [Nat.le_div_iff_mul_le (by decide), Nat.mul_comm]
  exact hfits

/-- Types are not decoded where there is no room for one of their rows of cells. -/
theorem decode_of_shortage [Memory] (hempty : AbiType.allEmpty types = false)
    (hfits : wordBytes * AbiType.leastWordsSum types ≤ data.length) {shortage : Shortage}
    (hroom : AbiType.firstShortage 0 types = some shortage) :
    decode types data = .error (.noRoom shortage) := by
  unfold decode
  rw [hempty, if_neg Bool.false_ne_true, if_neg (Nat.not_lt.mpr (words_fit hfits)), hroom]

/-- Static types with no array of no elements are not decoded where they are nested too deep. -/
theorem decode_of_tooDeep [Memory] (hempty : AbiType.allEmpty types = false)
    (hd : AbiType.anyDynamic types = false) (hfilled : AbiType.allFilled types = true)
    (hfits : wordBytes * AbiType.leastWordsSum types ≤ data.length)
    (hroom : AbiType.firstShortage 0 types = none) (hdeep : maxDepth < AbiType.mostOpenings types) :
    decode types data = .error .tooDeep := by
  have hread := @readEach_tooDeep data.toArray types 0 0 0 hd hfilled (Nat.zero_le _) hdeep
    (by rw [Nat.zero_add]; exact hfits)
  rw [Nat.mul_zero] at hread
  unfold decode
  rw [hempty, if_neg Bool.false_ne_true, if_neg (Nat.not_lt.mpr (words_fit hfits)), hroom, hread]
  exact if_neg (Nat.not_lt_zero _)

/-- Static types with no array of no elements have the misfit that they come to on all data that has
their words. -/
theorem decode_of_staticMisfit [Memory] (hd : AbiType.anyDynamic types = false)
    (hfilled : AbiType.allFilled types = true)
    (hfits : wordBytes * AbiType.leastWordsSum types ≤ data.length) {misfit : Misfit}
    (h : AbiType.staticMisfit types = some misfit) : decode types data = .error misfit := by
  obtain ⟨hempty, ⟨shortage, hroom, rfl⟩ | ⟨hroom, hdeep, rfl⟩⟩ :=
    AbiType.staticMisfit_eq_some_iff.mp h
  · exact decode_of_shortage hempty hfits hroom
  · exact decode_of_tooDeep hempty hd hfilled hfits hroom hdeep

/-- Static types that come to no misfit have values on all data that has their words, and the leaves
of these are the words in order. -/
theorem decode_inPlace [Memory] (hd : AbiType.anyDynamic types = false)
    (hfits : wordBytes * AbiType.leastWordsSum types ≤ data.length)
    (h : AbiType.staticMisfit types = none) :
    ∃ vs, decode types data = .ok vs ∧
      leavesOf vs = wordValues data 0 (AbiType.elementaryOf types) := by
  cases hempty : AbiType.allEmpty types with
  | true =>
    have hlength := AbiType.length_elementaryOf types
    rw [AbiType.leastWordsSum_of_allEmpty types hd hempty, List.length_eq_zero_iff] at hlength
    rw [hlength]
    exact ⟨[], decode_of_allEmpty hempty, rfl⟩
  | false =>
    rw [AbiType.staticMisfit_eq_none_iff, hempty, or_iff_right Bool.false_ne_true] at h
    obtain ⟨vs, hread, hleaves⟩ := @readEach_inPlace data.toArray types 0 0 0 hd h.2
      (by rw [Nat.zero_add]; exact hfits)
    rw [Nat.mul_zero] at hread
    refine ⟨vs, (decode_eq_ok_iff hempty).mpr ?_, hleaves⟩
    rw [hread]
    exact ⟨words_fit hfits, h.1, Nat.zero_le _, rfl⟩

end

section

variable {params : List Param} {data : List UInt8}

/-- Static parameters with no array of no elements have the misfit that their types come to on all
data that has their words. -/
theorem decodeValues_of_staticMisfit [Memory] (hne : params ≠ []) (hdata : data.length < wordLimit)
    (hd : AbiType.anyDynamic (params.map Param.type) = false)
    (hfilled : AbiType.allFilled (params.map Param.type) = true)
    (hfits : wordBytes * AbiType.headWordsSum (params.map Param.type) ≤ data.length)
    {misfit : Misfit} (h : AbiType.staticMisfit (params.map Param.type) = some misfit) :
    decodeValues params data =
      .error (.misfit (Param.listing params) data.length misfit.message) := by
  have hleast := hfits
  rw [AbiType.headWordsSum_of_static _ hd] at hleast
  have hhides := AbiType.anyHidesOverflow_of_filled _ hfilled
  rw [decodeValues_of_headBytes hne (Param.headBytes_of_le hhides hfits hdata) hfits,
    decode_of_staticMisfit hd hfilled hleast h]

/-- Static parameters decode in place, in any memory. Data is refused for its size exactly if it is
shorter than their words. All other data fares alike: it comes to the misfit of the types, or, if
they come to none, to values whose leaves are the words of the data in order, each taken for a value
of its elementary type. Nothing is said of types that exhaust memory, which stops the program. -/
theorem decodeValues_inPlace [Memory] (hne : params ≠ []) (hdata : data.length < wordLimit)
    (hd : AbiType.anyDynamic (params.map Param.type) = false)
    (hfilled : AbiType.allFilled (params.map Param.type) = true) :
    (IsTooShort (decodeValues params data) ↔
      data.length < wordBytes * AbiType.headWordsSum (params.map Param.type)) ∧
    (wordBytes * AbiType.headWordsSum (params.map Param.type) ≤ data.length →
      match AbiType.staticMisfit (params.map Param.type) with
      | some misfit =>
        misfit ≠ .noRoom .exhausted →
          decodeValues params data =
            .error (.misfit (Param.listing params) data.length misfit.message)
      | none =>
        ∃ vs, decodeValues params data = .ok vs ∧
          (AbiType.elementaryOf (params.map Param.type)).length =
            AbiType.headWordsSum (params.map Param.type) ∧
          leavesOf vs = (AbiType.elementaryOf (params.map Param.type)).mapIdx fun index t =>
            wordValue t (wordIn data index)) := by
  have hhides := AbiType.anyHidesOverflow_of_filled _ hfilled
  refine ⟨isTooShort_iff_of_exact hne hdata hhides, fun hfits => ?_⟩
  cases hmisfit : AbiType.staticMisfit (params.map Param.type) with
  | some misfit =>
    intro _
    exact decodeValues_of_staticMisfit hne hdata hd hfilled hfits hmisfit
  | none =>
    have hwords := AbiType.headWordsSum_of_static _ hd
    have hleast := hfits
    rw [hwords] at hleast
    obtain ⟨vs, hdecode, hleaves⟩ := decode_inPlace hd hleast hmisfit
    have hvalues : decodeValues params data =
        .ok (List.zipWith (fun v (p : Param) => label p.components v) vs params) := by
      rw [decodeValues_of_headBytes hne (Param.headBytes_of_le hhides hfits hdata) hfits, hdecode]
    have hlabelled : leavesOf (List.zipWith (fun v (p : Param) => label p.components v) vs params) =
        leavesOf vs := by
      obtain rfl | hshapes := haveShapes_of_decode hdecode
      · rfl
      · refine leavesOf_zipWith_label ?_
        rw [length_of_haveShapes hshapes, List.length_map]
    refine ⟨_, hvalues, ?_, ?_⟩
    · rw [AbiType.length_elementaryOf, hwords]
    · rw [hlabelled, hleaves]
      unfold wordValues
      simp only [Nat.zero_add]

end

/-- A walk of a truth value and two steps, an account and a tag. -/
def walkParams : List Param :=
  [⟨some "walk", "(bool,int8[2])", .tuple [.bool, .fixedArray (.int 8) 2],
      [⟨some "ok", "bool", .bool, []⟩, ⟨some "steps", "int8[2]", .fixedArray (.int 8) 2, []⟩]⟩,
    ⟨some "who", "address", .address, []⟩, ⟨some "tag", "bytes4", .fixedBytes 4, []⟩]

/-- The words of a walk one back and two on, with bytes that no value has in some of them. -/
def walkWords : List UInt8 :=
  wordOfNat 3 ++ wordOfInt (-1) ++ wordOfInt 2 ++ List.replicate 32 9 ++ List.replicate 32 7

attribute [local instance] Memory.usual

set_option maxRecDepth 4000 in
/-- The walk has a leaf for each word, whatever holds them together. -/
theorem walkWords_inPlace :
    walkParams ≠ [] ∧ walkWords.length < wordLimit ∧
    AbiType.anyDynamic (walkParams.map Param.type) = false ∧
    AbiType.allFilled (walkParams.map Param.type) = true ∧
    ∃ vs, decodeValues walkParams walkWords = .ok vs ∧
      leavesOf vs = [.bool true, .int (-1), .int 2, .address (List.replicate 20 9),
        .bytes (List.replicate 4 7)] := by
  have hne : walkParams ≠ [] := List.cons_ne_nil _ _
  have hdata : walkWords.length < wordLimit := by decide
  have hfits : wordBytes * AbiType.headWordsSum (walkParams.map Param.type) ≤ walkWords.length := by
    decide
  obtain ⟨-, hvalues⟩ := decodeValues_inPlace hne hdata rfl rfl
  obtain ⟨vs, hdecode, -, hleaves⟩ := hvalues hfits
  exact ⟨hne, hdata, rfl, rfl, vs, hdecode, hleaves.trans rfl⟩

/-- A number inside as many tuples of one field. -/
def nestedParam : Nat → Param
  | 0 => ⟨none, "uint256", .uint 256, []⟩
  | n + 1 =>
    let field := nestedParam n
    ⟨none, (AbiType.tuple [field.type]).text, .tuple [field.type], [field]⟩

/-- A number, 2^60 empty tuples, and a number that is nested too deep. -/
def crowdedParams : List Param :=
  [⟨some "a", "uint256", .uint 256, []⟩,
    ⟨some "b", "()[1152921504606846976]", .fixedArray (.tuple []) (Nat.pow 2 60), []⟩,
    { nestedParam 17 with name := some "c" }]

/-- Nesting is not all that can stop static parameters whose data has their words, whatever the
memory: the empty tuples take no words, but they take cells. -/
theorem not_forall_tooDeep :
    ¬∃ _ : Memory, ∀ params (data : List UInt8), params ≠ [] → data.length < wordLimit →
      AbiType.anyDynamic (params.map Param.type) = false →
      AbiType.allFilled (params.map Param.type) = true →
      wordBytes * AbiType.headWordsSum (params.map Param.type) ≤ data.length →
      ∀ fault, decodeValues params data = .error fault →
        fault = .misfit (Param.listing params) data.length Misfit.tooDeep.message := by
  rintro ⟨memory, hall⟩
  have hne : crowdedParams ≠ [] := List.cons_ne_nil _ _
  have hdata : (wordOfNat 5 ++ wordOfNat 7).length < wordLimit := by decide
  have hfits : wordBytes * AbiType.headWordsSum (crowdedParams.map Param.type) ≤
      (wordOfNat 5 ++ wordOfNat 7).length := by decide
  have hmisfit : AbiType.staticMisfit (crowdedParams.map Param.type) =
      some (.noRoom .unaddressable) := by rfl
  have hfault := decodeValues_of_staticMisfit hne hdata rfl rfl hfits hmisfit
  have hsame := hall _ _ hne hdata rfl rfl hfits _ hfault
  have hmessage := (DecodeFault.misfit.inj hsame).2.2
  exact absurd hmessage (by decide +kernel)

end RollupInput.Abi
