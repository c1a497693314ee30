import RollupInput.Proofs.Abi.Label
import RollupInput.Proofs.Abi.Success
import RollupInput.Proofs.Abi.Typing

/-!
# What values take from data

Offsets may lead anywhere and lengths may be any 64 bit number, but no value is made of more than the
data has: an array of any size has an element for at most each word, because its length must not
promise more words than are left, or else it has no elements, and a byte string stands in the data as
it is. This holds at every depth, by the induction that reads the values, and putting names on fields
keeps it.
-/

namespace RollupInput.Abi

mutual

/-- Whether a value of a type is drawn from data: its arrays of any size have no more elements than
the data has words, and its byte strings stand in the data without a gap, at every depth. -/
def IsDrawnFrom (data : List UInt8) : AbiType → Value → Prop
  | .bytes, .bytes bs => bs <:+: data
  | .array element, .array vs =>
    vs.length ≤ data.length / wordBytes ∧ ∀ v ∈ vs, IsDrawnFrom data element v
  | .fixedArray element _, .array vs => ∀ v ∈ vs, IsDrawnFrom data element v
  | .tuple fields, .tuple vs => AreDrawnFrom data fields vs
  | .tuple fields, .struct named => AreDrawnFrom data fields (named.map Prod.snd)
  | .bytes, _ => False
  | .array _, _ => False
  | .fixedArray _ _, _ => False
  | .tuple _, _ => False
  | _, _ => True

/-- Whether values of the types of a list are drawn from data, one for one. -/
def AreDrawnFrom (data : List UInt8) : List AbiType → List Value → Prop
  | [], [] => True
  | t :: ts, v :: vs => IsDrawnFrom data t v ∧ AreDrawnFrom data ts vs
  | _, _ => False

end

variable {data : List UInt8}

mutual

/-- Names on the fields of a value change nothing about what it takes from data. -/
theorem isDrawnFrom_label (t : AbiType) (components : List Param) (v : Value)
    (h : IsDrawnFrom data t v) : IsDrawnFrom data t (label components v) := by
  cases t with
  | bytes =>
    cases v <;> first | exact False.elim h | exact h
  | array element =>
    cases v <;> first | exact False.elim h | skip
    rename_i vs
    rw [label, labelAll_eq_map, IsDrawnFrom, List.length_map, List.forall_mem_map]
    exact ⟨h.1, fun v hv => isDrawnFrom_label element components v (h.2 v hv)⟩
  | fixedArray element size =>
    cases v <;> first | exact False.elim h | skip
    rename_i vs
    rw [label, labelAll_eq_map, IsDrawnFrom, List.forall_mem_map]
    exact fun v hv => isDrawnFrom_label element components v (h v hv)
  | tuple fields =>
    cases v <;> first | exact False.elim h | skip
    · rename_i vs
      have hfields := areDrawnFrom_labelEach fields components vs h
      rw [label]
      split
      · rw [IsDrawnFrom, map_snd_labelNamed]
        exact hfields
      · exact hfields
    · exact h
  | _ => trivial

/-- Names on fields change nothing about what they take from data. -/
theorem areDrawnFrom_labelEach (ts : List AbiType) (components : List Param) (vs : List Value)
    (h : AreDrawnFrom data ts vs) : AreDrawnFrom data ts (labelEach components vs) := by
  cases ts with
  | nil =>
    cases vs with
    | nil => trivial
    | cons v vs => exact False.elim h
  | cons t ts =>
    cases vs with
    | nil => exact False.elim h
    | cons v vs =>
      rw [labelEach]
      exact ⟨isDrawnFrom_label t _ v h.1, areDrawnFrom_labelEach ts components.tail vs h.2⟩

end

/-- An array of any size that is read has no more elements than the data has words: each of them
takes a word at least, or there are none. -/
theorem length_le_of_arrayAt {data : Array UInt8} {depth : Nat} {element : AbiType}
    {reader : ValueReader} {start : Nat} {vs : List Value}
    (h : (arrayAt data depth element reader start).outcome = .ok vs) :
    vs.length ≤ data.size / wordBytes := by
  obtain ⟨size, -, h⟩ := Weighed.outcome_of_bind h
  dsimp only at h
  split at h
  · cases h
    exact Nat.zero_le _
  · rename_i hsome
    obtain ⟨-, -, h⟩ := Weighed.outcome_of_bind h
    split at h
    · cases h
    · rename_i hfew
      obtain ⟨-, -, h⟩ := Weighed.outcome_of_bind h
      simp only [Bool.or_eq_true, beq_iff_eq, not_or] at hsome
      have hleast : size ≤ size * element.leastWords :=
        Nat.le_mul_of_pos_right size (Nat.pos_of_ne_zero hsome.2)
      have hleft : (data.size - (start + wordBytes)) / wordBytes ≤ data.size / wordBytes :=
        Nat.div_le_div_right (Nat.sub_le _ _)
      rw [length_of_readRow h]
      omega

mutual

/-- A value that is read is drawn from the data. -/
theorem isDrawnFrom_of_read (data : Array UInt8) (t : AbiType) (depth base pos : Nat) (v : Value)
    (h : ((valueReader data depth t).read base pos).outcome = .ok v) :
    IsDrawnFrom data.toList t v := by
  cases t with
  | bytes =>
    obtain ⟨bs, hbs, rfl⟩ := exists_of_blobReader h
    exact hbs
  | array element =>
    obtain ⟨start, vs, rfl, hvs⟩ := exists_of_read_array h
    have hlength := length_le_of_arrayAt hvs
    rw [← Array.length_toList] at hlength
    exact ⟨hlength, forall_of_arrayAt (isDrawnFrom_of_read data element (depth + 2)) hvs⟩
  | fixedArray element size =>
    obtain ⟨start, vs, rfl, hvs⟩ := exists_of_read_fixedArray h
    exact forall_of_readRow (isDrawnFrom_of_read data element (depth + 1) start) hvs
  | tuple fields =>
    obtain ⟨start, vs, rfl, hvs⟩ := exists_of_read_tuple h
    exact areDrawnFrom_of_readEach data fields (depth + 1) start start vs hvs
  | _ => trivial

/-- Values that are read are drawn from the data. -/
theorem areDrawnFrom_of_readEach (data : Array UInt8) (ts : List AbiType) (depth base pos : Nat)
    (vs : List Value) (h : (readEach base (fieldReaders data depth ts) pos).outcome = .ok vs) :
    AreDrawnFrom data.toList ts vs := by
  cases ts with
  | nil =>
    cases h
    trivial
  | cons t rest =>
    rw [fieldReaders] at h
    obtain ⟨v, more, rfl, hv, hmore⟩ := exists_of_readEach h
    exact ⟨isDrawnFrom_of_read data t depth base pos v hv,
      areDrawnFrom_of_readEach data rest depth base _ more hmore⟩

end

variable {params : List Param} {vs : List Value}

/-- Values that are drawn from data are so with the names of parameters put on. -/
theorem forall₂_isDrawnFrom (h : AreDrawnFrom data (params.map Param.type) vs) :
    List.Forall₂ (fun (p : Param) v => IsDrawnFrom data p.type v) params
      (List.zipWith (fun v (p : Param) => label p.components v) vs params) := by
  induction params generalizing vs with
  | nil =>
    rw [List.zipWith_nil_right]
    exact .nil
  | cons p params ih =>
    cases vs with
    | nil => exact False.elim h
    | cons v vs =>
      rw [List.zipWith_cons_cons]
      exact .cons (isDrawnFrom_label p.type p.components v h.1) (ih h.2)

/-- No length and no offset makes a decode invent anything: whatever the data, its values are drawn
from it, one for each parameter, or there are no values at all. -/
theorem decodeValues_isDrawnFrom [Memory] (h : decodeValues params data = .ok vs) :
    vs = [] ∨ List.Forall₂ (fun (p : Param) v => IsDrawnFrom data p.type v) params vs := by
  by_cases hnone : params = []
  · rw [hnone, decodeValues_nil] at h
    exact .inl (Except.ok.inj h).symm
  · obtain ⟨size, values, -, -, hdecode, rfl⟩ := (decodeValues_eq_ok_iff hnone).mp h
    cases hempty : AbiType.allEmpty (params.map Param.type) with
    | true =>
      rw [decode_of_allEmpty hempty] at hdecode
      cases hdecode
      exact .inl rfl
    | false =>
      obtain ⟨-, -, -, hvalues⟩ := (decode_eq_ok_iff hempty).mp hdecode
      exact .inr (forall₂_isDrawnFrom (areDrawnFrom_of_readEach data.toArray _ 0 0 0 values hvalues))

/-- An array of byte strings. -/
def blobsParams : List Param := [⟨some "blobs", "bytes[]", .array .bytes, []⟩]

/-- An array of two byte strings whose offsets lead to the same two bytes, the last of the data. -/
def sharedBlob : List UInt8 :=
  wordOfNat 32 ++ wordOfNat 2 ++ wordOfNat 64 ++ wordOfNat 64 ++ wordOfNat 2 ++ [104, 105]

attribute [local instance] Memory.usual

set_option maxRecDepth 4000 in
/-- Two byte strings that share their bytes are both drawn from the data. -/
theorem sharedBlob_isDrawnFrom :
    decodeValues blobsParams sharedBlob = .ok [.array [.bytes [104, 105], .bytes [104, 105]]] ∧
    List.Forall₂ (fun (p : Param) v => IsDrawnFrom sharedBlob p.type v) blobsParams
      [.array [.bytes [104, 105], .bytes [104, 105]]] := by
  have hdecode : decodeValues blobsParams sharedBlob =
      .ok [.array [.bytes [104, 105], .bytes [104, 105]]] := by with_unfolding_all rfl
  obtain hnone | hdrawn := decodeValues_isDrawnFrom hdecode
  · cases hnone
  · exact ⟨hdecode, hdrawn⟩

end RollupInput.Abi
