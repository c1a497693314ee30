import RollupInput.Proofs.Abi.EncodingSize
import RollupInput.Proofs.Abi.Placement
import RollupInput.Proofs.Text.Utf8

/-!
# Reading encodings

The reader of a solid type gives back a value whose encoding is placed in the data, as long as no
more containers open inside each other than the reader admits. The room that reading takes is a
function of the type and the value. The induction is on the type; sequences are read by the facts
that all members of a layout are placed and that the place of a member is fixed by its type.
-/

namespace RollupInput.Abi

/-- The sum of the rooms that values take, each by the same measure. -/
def roomEach (measure : Value → Nat) : List Value → Nat
  | [] => 0
  | v :: vs => measure v + roomEach measure vs

mutual

/-- The room in bytes that reading a value of a type takes: the lengths of its byte strings and
texts, and the cells of the elements of its arrays of any size. -/
def room : AbiType → Value → Nat
  | .bytes, .bytes bs => bs.length
  | .string, .string s => Text.Utf8.size s.toList
  | .array element, .array vs =>
    vs.length * element.cells * cellBytes + roomEach (fun v => room element v) vs
  | .fixedArray element _, .array vs => roomEach (fun v => room element v) vs
  | .tuple fields, .tuple vs => roomOf fields vs
  | _, _ => 0

/-- The room in bytes that reading values of the types of a list takes. -/
def roomOf : List AbiType → List Value → Nat
  | t :: ts, v :: vs => room t v + roomOf ts vs
  | _, _ => 0

end

variable {data : Array UInt8} {pos base depth : Nat}

/-- Going on with a value that took room. -/
theorem Weighed.bind_ok {α β : Type} (weight : Nat) (a : α) (f : α → Weighed β) :
    (⟨weight, .ok a⟩ : Weighed α) >>= f = ⟨weight + (f a).weight, (f a).outcome⟩ := rfl

/-- Changing a value that took room. -/
theorem Weighed.map_ok {α β : Type} (weight : Nat) (a : α) (f : α → β) :
    f <$> (⟨weight, .ok a⟩ : Weighed α) = ⟨weight, .ok (f a)⟩ := rfl

/-- Where the offset in a place is followed, the member is found. -/
theorem follow_of_placed {bs : List UInt8} (hsize : data.size < wordLimit) (hd : depth < maxDepth)
    (h : Placed data base pos ⟨true, bs⟩) :
    ∃ start, follow data depth base pos = pure start ∧ StandsAt data start bs := by
  obtain ⟨offset, hword, hbytes⟩ := h
  have hle := hbytes.le_size
  exact ⟨base + offset, follow_of_standsAt hword (by omega) hd (by omega), hbytes⟩

/-- A byte string is read back, and takes its length of room. -/
theorem read_blobReader {bs : List UInt8} (interpret : List UInt8 → Value)
    (hsize : data.size < wordLimit) (hd : depth < maxDepth)
    (h : Placed data base pos ⟨true, wordOfNat bs.length ++ padded bs⟩) :
    (blobReader data depth interpret).read base pos = ⟨bs.length, .ok (interpret bs)⟩ := by
  obtain ⟨start, hfollow, hbytes⟩ := follow_of_placed hsize hd h
  have hblob : StandsAt data (start + wordBytes) bs := by
    have hright := hbytes.right
    rw [length_wordOfNat] at hright
    exact hright.left
  have hle := hblob.le_size
  dsimp only [blobReader]
  rw [hfollow, pure_bind, numberAt_of_standsAt hbytes.left (by omega), pure_bind,
    bytesAt_of_standsAt hblob, pure_bind]
  rfl

/-- The parts of a value are read where its encoding stands. -/
theorem read_partsReader {bs : List UInt8} {indirect : Bool} {size : Nat}
    {parts : Nat → Weighed Value} (hsize : data.size < wordLimit) (hd : depth < maxDepth)
    (h : Placed data base pos ⟨indirect, bs⟩) :
    ∃ start, (partsReader data depth indirect size parts).read base pos = parts start ∧
      StandsAt data start bs := by
  cases indirect with
  | true =>
    obtain ⟨start, hfollow, hbytes⟩ := follow_of_placed hsize hd h
    refine ⟨start, ?_, hbytes⟩
    dsimp only [partsReader]
    rw [if_pos rfl, hfollow, pure_bind]
  | false =>
    refine ⟨pos, ?_, h⟩
    dsimp only [partsReader]
    rw [if_neg Bool.false_ne_true, openAt_of_lt hd, pure_bind]

/-- Values of one type are read one after the other where all of them are placed. -/
theorem readRow_of_allPlaced {t : AbiType} {reader : ValueReader} {vs : List Value}
    (hread : ∀ v ∈ vs, ∀ pos, Placed data base pos (partOf t v) →
      reader.read base pos = ⟨room t v, .ok v⟩)
    (hplace : ∀ v ∈ vs, (partOf t v).placeBytes = reader.placeBytes)
    (h : AllPlaced data base pos (vs.map (partOf t))) :
    readRow reader base vs.length pos = ⟨roomEach (fun v => room t v) vs, .ok vs⟩ := by
  induction vs generalizing pos with
  | nil => rfl
  | cons v vs ih =>
    obtain ⟨hfirst, hmore⟩ := h
    rw [hplace v List.mem_cons_self] at hmore
    have hone := hread v List.mem_cons_self pos hfirst
    have hrest := ih (fun w hw => hread w (List.mem_cons_of_mem v hw))
      (fun w hw => hplace w (List.mem_cons_of_mem v hw)) hmore
    rw [List.length_cons, readRow, hone, Weighed.bind_ok, hrest, Weighed.bind_ok]
    rfl

/-- The place of a value of a solid type is the one that its reader asks for. -/
theorem placeBytes_partOf {t : AbiType} {v : Value} (hs : t.isSolid = true) (ht : HasType t v) :
    (partOf t v).placeBytes = (valueReader data depth t).placeBytes := by
  rw [placeBytes_valueReader, AbiType.isIndirect_eq_isDynamic t hs]
  unfold Part.placeBytes partOf
  dsimp only
  cases hd : t.isDynamic with
  | true => rfl
  | false => exact length_encode_of_static t v hd ht

/-- The array of any size at a position is read back from its length and its layout. -/
theorem arrayAt_of_standsAt {element : AbiType} {reader : ValueReader} {vs : List Value}
    (hsize : data.size < wordLimit) (hd : depth < maxDepth) (hs : element.isSolid = true)
    (ht : ∀ v ∈ vs, HasType element v)
    (hread : ∀ base, ∀ v ∈ vs, ∀ pos, Placed data base pos (partOf element v) →
      reader.read base pos = ⟨room element v, .ok v⟩)
    (hplace : ∀ v ∈ vs, (partOf element v).placeBytes = reader.placeBytes)
    (h : StandsAt data pos (encode (.array element) (.array vs))) :
    arrayAt data depth element reader pos = ⟨room (.array element) (.array vs), .ok vs⟩ := by
  rw [encode_array] at h
  have hlayout : StandsAt data (pos + wordBytes) (layOut (vs.map (partOf element))) := by
    have hright := h.right
    rwa [length_wordOfNat] at hright
  have hle := hlayout.le_size
  have hleast : vs.length * (wordBytes * element.leastWords) ≤
      (layOut (vs.map (partOf element))).length :=
    mul_le_length_layOut fun v hv => leastWords_le_size element v (ht v hv)
  have hpos := AbiType.leastWords_pos element hs
  have hfew : vs.length * element.leastWords ≤ (data.size - (pos + wordBytes)) / wordBytes := by
    rw [Nat.mul_left_comm] at hleast
    exact (Nat.le_div_iff_mul_le (by decide)).mpr (by rw [Nat.mul_comm]; omega)
  have hcount : vs.length < wordLimit := by
    have hmul : vs.length ≤ vs.length * (wordBytes * element.leastWords) :=
      Nat.le_mul_of_pos_right _ (Nat.mul_pos (by decide) hpos)
    omega
  have hrow := readRow_of_allPlaced (hread (pos + wordBytes)) hplace (allPlaced_of_layOut hlayout)
  rw [arrayAt, numberAt_of_standsAt h.left hcount, pure_bind]
  dsimp only
  cases vs with
  | nil =>
    have hroom : room (.array element) (.array []) = 0 := by
      rw [room, List.length_nil, Nat.zero_mul, Nat.zero_mul]
      rfl
    rw [hroom]
    exact if_pos rfl
  | cons v vs =>
    have hne : ¬(((v :: vs).length == 0 || element.leastWords == 0) = true) := by
      simp only [List.length_cons, Bool.or_eq_true, beq_iff_eq]
      omega
    rw [if_neg hne, openAt_of_lt hd, pure_bind, if_neg (Nat.not_lt.mpr hfew), hrow, Weighed.take,
      Weighed.bind_ok, room]

/-- A value of a word type is read back from its word. -/
theorem read_of_isWord {t : AbiType} {v : Value} (hw : t.isWord = true) (ht : HasType t v)
    (h : StandsAt data pos (encode t v)) :
    (valueReader data depth t).read base pos = pure v := by
  have hword := wordAt_of_standsAt h (length_encode_of_isWord hw ht)
  cases t with
  | bool =>
    cases v <;> first | exact False.elim ht | skip
    rename_i b
    rw [valueReader]
    dsimp only [wordReader]
    rw [hword, pure_bind, encode]
    cases b <;> rfl
  | int bits =>
    cases v <;> first | exact False.elim ht | skip
    rw [valueReader]
    dsimp only [wordReader]
    rw [hword, pure_bind, encode, intOfWord_wordOfInt ht.1 ht.2]
  | uint bits =>
    cases v <;> first | exact False.elim ht | skip
    rw [valueReader]
    dsimp only [wordReader]
    rw [hword, pure_bind, encode, natOfBytes_wordOfNat ht]
  | address =>
    cases v <;> first | exact False.elim ht | skip
    rename_i bs
    rw [HasType] at ht
    rw [valueReader]
    dsimp only [wordReader]
    have hlen : (List.replicate (wordBytes - bs.length) (0 : UInt8)).length = 12 := by
      rw [List.length_replicate, ht]
      rfl
    rw [hword, pure_bind, encode, flushRight, List.drop_left' hlen]
  | fixedBytes size =>
    cases v <;> first | exact False.elim ht | skip
    rw [valueReader]
    dsimp only [wordReader]
    rw [hword, pure_bind, encode, flushLeft, List.take_left' ht.1]
  | function =>
    cases v <;> first | exact False.elim ht | skip
    rw [valueReader]
    dsimp only [wordReader]
    rw [hword, pure_bind, encode, flushLeft, List.take_left' ht]
  | _ => cases hw

mutual

/-- A value of a solid type is read back where its encoding is placed, and takes its room. -/
theorem read_of_placed (hsize : data.size < wordLimit) (t : AbiType) (v : Value)
    (depth base pos : Nat) (hs : t.isSolid = true) (ht : HasType t v)
    (ho : t.openings + depth ≤ maxDepth) (h : Placed data base pos (partOf t v)) :
    (valueReader data depth t).read base pos = ⟨room t v, .ok v⟩ := by
  cases t with
  | bytes =>
    cases v <;> first | exact False.elim ht | skip
    rw [AbiType.openings] at ho
    rw [valueReader, room]
    exact read_blobReader .bytes hsize (by omega) h
  | string =>
    cases v <;> first | exact False.elim ht | skip
    rename_i s
    rw [AbiType.openings] at ho
    have hread := read_blobReader (fun bs => .string (String.ofList (Text.Utf8.decodeLossy bs)))
      hsize (by omega : depth < maxDepth) h
    rw [valueReader, room, hread, Text.Utf8.decodeLossy_encode, String.ofList_toList]
    rfl
  | array element =>
    obtain ⟨vs, rfl, hvs⟩ := hasType_array ht
    rw [AbiType.isSolid] at hs
    rw [AbiType.openings] at ho
    obtain ⟨start, hfollow, hbytes⟩ := follow_of_placed hsize (by omega : depth < maxDepth) h
    have harray := arrayAt_of_standsAt hsize (by omega : depth + 1 < maxDepth) hs hvs
      (fun base w hw pos => read_of_placed hsize element w (depth + 2) base pos hs (hvs w hw)
        (by omega))
      (fun w hw => placeBytes_partOf hs (hvs w hw)) hbytes
    rw [valueReader]
    dsimp only [arrayReader]
    rw [hfollow, pure_bind, LazyTable.get_ofFn, harray]
    rfl
  | fixedArray element size =>
    obtain ⟨vs, rfl, rfl, hvs⟩ := hasType_fixedArray ht
    have hi := AbiType.isIndirect_eq_isDynamic _ hs
    rw [AbiType.isSolid, Bool.and_eq_true] at hs
    rw [AbiType.openings] at ho
    rw [partOf, ← hi, encode_fixedArray] at h
    rw [valueReader]
    obtain ⟨start, hread, hbytes⟩ := read_partsReader hsize (by omega : depth < maxDepth) h
    have hrow := readRow_of_allPlaced
      (fun w hw pos => read_of_placed hsize element w (depth + 1) start pos hs.2 (hvs w hw)
        (by omega))
      (fun w hw => placeBytes_partOf hs.2 (hvs w hw)) (allPlaced_of_layOut hbytes)
    refine hread.trans ?_
    rw [hrow, Weighed.map_ok, room]
  | tuple fields =>
    obtain ⟨vs, rfl, hvs⟩ := hasType_tuple ht
    have hi := AbiType.isIndirect_eq_isDynamic _ hs
    rw [AbiType.isSolid, Bool.and_eq_true] at hs
    rw [AbiType.openings] at ho
    rw [partOf, ← hi, encode] at h
    rw [valueReader]
    obtain ⟨start, hread, hbytes⟩ := read_partsReader hsize (by omega : depth < maxDepth) h
    have heach := readEach_of_allPlaced hsize fields vs (depth + 1) start start hs.2 hvs (by omega)
      (allPlaced_of_layOut hbytes)
    refine hread.trans ?_
    rw [heach, Weighed.map_ok, room]
  -- All other types are single words, which are read alike.
  | _ => exact read_of_isWord rfl ht h

/-- Values of solid types are read back where all of their encodings are placed. -/
theorem readEach_of_allPlaced (hsize : data.size < wordLimit) (ts : List AbiType) (vs : List Value)
    (depth base pos : Nat) (hs : AbiType.allSolid ts = true) (ht : HaveTypes ts vs)
    (ho : AbiType.mostOpenings ts + depth ≤ maxDepth)
    (h : AllPlaced data base pos (partsOf ts vs)) :
    readEach base (fieldReaders data depth ts) pos = ⟨roomOf ts vs, .ok vs⟩ := by
  cases ts with
  | nil =>
    cases vs with
    | nil => rfl
    | cons v vs => exact False.elim ht
  | cons t ts =>
    obtain ⟨w, ws, rfl, hw, hws⟩ := haveTypes_cons ht
    rw [AbiType.allSolid, Bool.and_eq_true] at hs
    rw [AbiType.mostOpenings] at ho
    rw [partsOf_cons] at h
    obtain ⟨hfirst, hmore⟩ := h
    have hplace : (partOf t w).placeBytes = (valueReader data depth t).placeBytes :=
      placeBytes_partOf hs.1 hw
    rw [hplace] at hmore
    have hone := read_of_placed hsize t w depth base pos hs.1 hw (by omega) hfirst
    have hrest := readEach_of_allPlaced hsize ts ws depth base _ hs.2 hws (by omega) hmore
    rw [fieldReaders, readEach, hone, Weighed.bind_ok, hrest, Weighed.bind_ok, roomOf]
    rfl

end

end RollupInput.Abi
