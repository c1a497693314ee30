import RollupInput.Proofs.Abi.Encoding
import RollupInput.Proofs.Abi.Measure

/-!
# Sizes of encodings

An encoding has at least the least number of words of its type, and exactly these if the type is
static. The place of a member of a sequence is therefore fixed by its type, and a reader that asks
for the least words of what an encoding promises never refuses it.
-/

namespace RollupInput.Abi

/-- The member of a sequence that a value of a type makes. -/
def partOf (t : AbiType) (v : Value) : Part := ⟨t.isDynamic, encode t v⟩

/-- The encoding of an array of any size, over its members. -/
theorem encode_array (element : AbiType) (vs : List Value) :
    encode (.array element) (.array vs) =
      wordOfNat vs.length ++ layOut (vs.map (partOf element)) := rfl

/-- The encoding of an array of fixed size, over its members. -/
theorem encode_fixedArray (element : AbiType) (size : Nat) (vs : List Value) :
    encode (.fixedArray element size) (.array vs) = layOut (vs.map (partOf element)) := rfl

/-- The members that values of the types of a list make, the first one apart. -/
theorem partsOf_cons (t : AbiType) (ts : List AbiType) (v : Value) (vs : List Value) :
    partsOf (t :: ts) (v :: vs) = partOf t v :: partsOf ts vs := rfl

/-- The values of an array type are arrays of its element. -/
theorem hasType_array {element : AbiType} {v : Value} (h : HasType (.array element) v) :
    ∃ vs, v = .array vs ∧ ∀ w ∈ vs, HasType element w := by
  cases v with
  | array vs => exact ⟨vs, rfl, h⟩
  | _ => exact False.elim h

/-- The values of a type of arrays of fixed size are arrays of that size of its element. -/
theorem hasType_fixedArray {element : AbiType} {size : Nat} {v : Value}
    (h : HasType (.fixedArray element size) v) :
    ∃ vs, v = .array vs ∧ vs.length = size ∧ ∀ w ∈ vs, HasType element w := by
  cases v with
  | array vs => exact ⟨vs, rfl, h⟩
  | _ => exact False.elim h

/-- The values of a tuple type are tuples of values of its fields. -/
theorem hasType_tuple {fields : List AbiType} {v : Value} (h : HasType (.tuple fields) v) :
    ∃ vs, v = .tuple vs ∧ HaveTypes fields vs := by
  cases v with
  | tuple vs => exact ⟨vs, rfl, h⟩
  | _ => exact False.elim h

/-- Some types have values one for one. -/
theorem haveTypes_cons {t : AbiType} {ts : List AbiType} {vs : List Value}
    (h : HaveTypes (t :: ts) vs) : ∃ w ws, vs = w :: ws ∧ HasType t w ∧ HaveTypes ts ws := by
  cases vs with
  | nil => exact False.elim h
  | cons w ws => exact ⟨w, ws, rfl, h⟩

/-- Whether the values of a type are single words. -/
def AbiType.isWord : AbiType → Bool
  | .bool | .int _ | .uint _ | .address | .fixedBytes _ | .function => true
  | _ => false

/-- The value of a word type is encoded as a word. -/
theorem length_encode_of_isWord {t : AbiType} {v : Value} (ht : t.isWord = true)
    (h : HasType t v) : (encode t v).length = wordBytes := by
  cases t with
  | bool | int bits | uint bits =>
    cases v <;> first | exact False.elim h | exact length_wordOfNat _
  | address =>
    cases v <;> first | exact False.elim h | skip
    rw [encode]
    exact length_flushRight (by rw [h]; decide)
  | fixedBytes size =>
    cases v <;> first | exact False.elim h | skip
    rw [encode]
    exact length_flushLeft (by rw [h.1]; exact h.2)
  | function =>
    cases v <;> first | exact False.elim h | skip
    rw [encode]
    exact length_flushLeft (by rw [h]; decide)
  | _ => cases ht

/-- The bytes of a member: all of its place and all behind it. -/
def Part.size (p : Part) : Nat := p.placeBytes + p.tailBytes

/-- A layout has the bytes of its members. -/
theorem length_layOut_cons (p : Part) (rest : List Part) :
    (layOut (p :: rest)).length = p.size + (layOut rest).length := by
  rw [length_layOut, length_layOut, headSize, tailSize]
  unfold Part.size
  omega

/-- A dynamic member has a word for its place besides its encoding. -/
theorem size_partOf_of_dynamic {t : AbiType} (hd : t.isDynamic = true) (v : Value) :
    (partOf t v).size = wordBytes + (encode t v).length := by
  unfold Part.size Part.placeBytes Part.tailBytes partOf
  rw [if_pos hd, if_pos hd]

/-- A static member is in its place. -/
theorem size_partOf_of_static {t : AbiType} (hd : t.isDynamic = false) (v : Value) :
    (partOf t v).size = (encode t v).length := by
  unfold Part.size Part.placeBytes Part.tailBytes partOf
  rw [if_neg (by simp [hd]), if_neg (by simp [hd]), Nat.add_zero]

/-- A byte string is encoded with a word for its length and less than a word of padding. -/
theorem length_encode_bytes_le (bs : List UInt8) :
    (encode .bytes (.bytes bs)).length ≤ bs.length + 2 * wordBytes := by
  have hpad : (padded bs).length ≤ bs.length + wordBytes := by
    have hmod := Nat.mod_lt (wordBytes - bs.length % wordBytes) (by decide : 0 < wordBytes)
    rw [padded, List.length_append, List.length_replicate]
    omega
  rw [encode, List.length_append, length_wordOfNat]
  omega

/-- A layout of values of one type has the least size of each of them. -/
theorem mul_le_length_layOut {t : AbiType} {n : Nat} {vs : List Value}
    (h : ∀ v ∈ vs, n ≤ (partOf t v).size) :
    vs.length * n ≤ (layOut (vs.map (partOf t))).length := by
  induction vs with
  | nil => exact Nat.le_of_eq (Nat.zero_mul n)
  | cons v vs ih =>
    have hv := h v List.mem_cons_self
    have hvs := ih fun w hw => h w (List.mem_cons_of_mem v hw)
    rw [List.map_cons, length_layOut_cons, List.length_cons, Nat.succ_mul]
    omega

/-- A layout of values of one type that all have the same size. -/
theorem length_layOut_of_forall {t : AbiType} {n : Nat} {vs : List Value}
    (h : ∀ v ∈ vs, (partOf t v).size = n) :
    (layOut (vs.map (partOf t))).length = vs.length * n := by
  induction vs with
  | nil => exact (Nat.zero_mul n).symm
  | cons v vs ih =>
    have hv := h v List.mem_cons_self
    have hvs := ih fun w hw => h w (List.mem_cons_of_mem v hw)
    rw [List.map_cons, length_layOut_cons, List.length_cons, Nat.succ_mul, hv, hvs, Nat.add_comm]

mutual

/-- The encoding of a static value has the least words of its type. -/
theorem length_encode_of_static (t : AbiType) (v : Value) (hd : t.isDynamic = false)
    (h : HasType t v) : (encode t v).length = wordBytes * t.leastWords := by
  cases t with
  | fixedArray element size =>
    obtain ⟨vs, rfl, rfl, hvs⟩ := hasType_fixedArray h
    rw [AbiType.isDynamic] at hd
    have hall : ∀ w ∈ vs, (partOf element w).size = wordBytes * element.leastWords := by
      intro w hw
      rw [size_partOf_of_static hd]
      exact length_encode_of_static element w hd (hvs w hw)
    rw [encode_fixedArray, length_layOut_of_forall hall, AbiType.leastWords, Nat.mul_left_comm]
  | tuple fields =>
    obtain ⟨vs, rfl, hvs⟩ := hasType_tuple h
    rw [AbiType.isDynamic] at hd
    rw [encode, length_layOut_of_static fields vs hd hvs, AbiType.leastWords]
  | bytes | string | array element => cases hd
  | _ =>
    rw [length_encode_of_isWord rfl h]
    rfl

/-- The layout of static values has the least words of their types. -/
theorem length_layOut_of_static (ts : List AbiType) (vs : List Value)
    (hd : AbiType.anyDynamic ts = false) (h : HaveTypes ts vs) :
    (layOut (partsOf ts vs)).length = wordBytes * AbiType.leastWordsSum ts := by
  cases ts with
  | nil => rfl
  | cons t ts =>
    obtain ⟨w, ws, rfl, hw, hws⟩ := haveTypes_cons h
    rw [AbiType.anyDynamic, Bool.or_eq_false_iff] at hd
    have hone := length_encode_of_static t w hd.1 hw
    have hmore := length_layOut_of_static ts ws hd.2 hws
    rw [partsOf_cons, length_layOut_cons, size_partOf_of_static hd.1, hone, hmore,
      AbiType.leastWordsSum, Nat.mul_add]

end

mutual

/-- A member has at least the least words of its type. -/
theorem leastWords_le_size (t : AbiType) (v : Value) (h : HasType t v) :
    wordBytes * t.leastWords ≤ (partOf t v).size := by
  cases t with
  | fixedArray element size =>
    obtain ⟨vs, rfl, rfl, hvs⟩ := hasType_fixedArray h
    have hall := mul_le_length_layOut fun w hw => leastWords_le_size element w (hvs w hw)
    rw [← encode_fixedArray element vs.length] at hall
    rw [AbiType.leastWords, Nat.mul_left_comm]
    cases hd : (AbiType.fixedArray element vs.length).isDynamic with
    | true =>
      rw [size_partOf_of_dynamic hd]
      omega
    | false =>
      rw [size_partOf_of_static hd]
      exact hall
  | tuple fields =>
    obtain ⟨vs, rfl, hvs⟩ := hasType_tuple h
    have hall := leastWordsSum_le_length fields vs hvs
    have he : encode (.tuple fields) (.tuple vs) = layOut (partsOf fields vs) := by rw [encode]
    rw [← he] at hall
    rw [AbiType.leastWords]
    cases hd : (AbiType.tuple fields).isDynamic with
    | true =>
      rw [size_partOf_of_dynamic hd]
      omega
    | false =>
      rw [size_partOf_of_static hd]
      exact hall
  | bytes | string | array element =>
    rw [size_partOf_of_dynamic rfl]
    exact Nat.le_add_right ..
  | _ =>
    rw [size_partOf_of_static rfl, length_encode_of_isWord rfl h]
    exact Nat.le_refl _

/-- A layout has at least the least words of its types. -/
theorem leastWordsSum_le_length (ts : List AbiType) (vs : List Value) (h : HaveTypes ts vs) :
    wordBytes * AbiType.leastWordsSum ts ≤ (layOut (partsOf ts vs)).length := by
  cases ts with
  | nil => exact Nat.zero_le _
  | cons t ts =>
    obtain ⟨w, ws, rfl, hw, hws⟩ := haveTypes_cons h
    have hone := leastWords_le_size t w hw
    have hmore := leastWordsSum_le_length ts ws hws
    rw [partsOf_cons, length_layOut_cons, AbiType.leastWordsSum, Nat.mul_add]
    omega

end

/-- The place of a value takes the head words of its type. -/
theorem placeBytes_partOf_eq {t : AbiType} {v : Value} (h : HasType t v) :
    (partOf t v).placeBytes = wordBytes * t.headWords := by
  unfold Part.placeBytes partOf
  dsimp only
  cases hd : t.isDynamic with
  | true => rw [if_pos rfl, AbiType.headWords_of_dynamic hd, Nat.mul_one]
  | false =>
    rw [if_neg Bool.false_ne_true, length_encode_of_static t v hd h, AbiType.headWords_of_static t hd]

/-- The places of values take the head words of their types. -/
theorem headSize_partsOf {ts : List AbiType} {vs : List Value} (h : HaveTypes ts vs) :
    headSize (partsOf ts vs) = wordBytes * AbiType.headWordsSum ts := by
  induction ts generalizing vs with
  | nil =>
    cases vs with
    | nil => rfl
    | cons v vs => exact False.elim h
  | cons t ts ih =>
    obtain ⟨w, ws, rfl, hw, hws⟩ := haveTypes_cons h
    rw [partsOf_cons, headSize, placeBytes_partOf_eq hw, ih hws, AbiType.headWordsSum, Nat.mul_add]

end RollupInput.Abi
