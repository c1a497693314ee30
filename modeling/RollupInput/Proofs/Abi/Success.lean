import RollupInput.Abi.Param
import RollupInput.Proofs.Abi.Shape

/-!
# When data is decoded

The checks on the way to the values of a parameter list, as conditions: data is decoded exactly if
it passes all of them, and the values are then what reading gives. What is proved of decoded values,
and that data can be decoded at all, starts from these two equivalences. Where a check fails, the
fault says which parameters were asked for.
-/

namespace RollupInput.Abi

variable {params : List Param} {types : List AbiType} {data : List UInt8} {vs : List Value}

/-- Types that are made of nothing have no values, whatever the data. -/
theorem decode_of_allEmpty [Memory]
    (h : AbiType.allEmpty types = true) : decode types data = .ok [] :=
  if_pos h

/-- Other types are decoded exactly if the data has their least words, there is room for their rows
of cells, and reading comes to values within the room. -/
theorem decode_eq_ok_iff [Memory] (h : AbiType.allEmpty types = false) :
    decode types data = .ok vs ↔
      AbiType.leastWordsSum types ≤ data.length / wordBytes ∧
        AbiType.firstShortage 0 types = none ∧
        (readEach 0 (fieldReaders data.toArray 0 types) 0).weight ≤ maxRoom ∧
        (readEach 0 (fieldReaders data.toArray 0 types) 0).outcome = .ok vs := by
  unfold decode
  rw [h, if_neg Bool.false_ne_true]
  by_cases hleast : data.length / wordBytes < AbiType.leastWordsSum types
  · rw [if_pos hleast]
    constructor
    · intro hc
      cases hc
    · intro hc
      omega
  · rw [if_neg hleast]
    cases AbiType.firstShortage 0 types with
    | some shortage =>
      constructor
      · intro hc
        cases hc
      · rintro ⟨-, hc, -⟩
        cases hc
    | none =>
      dsimp only
      unfold Weighed.within
      by_cases hroom : maxRoom < (readEach 0 (fieldReaders data.toArray 0 types) 0).weight
      · rw [if_pos hroom]
        constructor
        · intro hc
          cases hc
        · intro hc
          omega
      · rw [if_neg hroom]
        constructor
        · intro hok
          exact ⟨by omega, rfl, by omega, hok⟩
        · intro hc
          exact hc.2.2.2

/-- Values that are decoded are nested like their types, unless these are made of nothing, for
which no values are given. -/
theorem haveShapes_of_decode [Memory]
    (h : decode types data = .ok vs) : vs = [] ∨ HaveShapes types vs := by
  cases hempty : AbiType.allEmpty types with
  | true =>
    rw [decode_of_allEmpty hempty] at h
    exact .inl (Except.ok.inj h).symm
  | false =>
    obtain ⟨-, -, -, hvalues⟩ := (decode_eq_ok_iff hempty).mp h
    exact .inr (haveShapes_of_readEach data.toArray types 0 0 0 vs hvalues)

/-- No parameters have no values. -/
theorem decodeValues_nil [Memory] : decodeValues [] data = .ok [] := rfl

/-- Data that is too short for the head of parameters, or any data if the head cannot be counted, is
not decoded. The fault blames the parameters. -/
theorem decodeValues_of_tooShort [Memory] (hne : params ≠ [])
    (h : ∀ size, Param.headBytes params = some size → data.length < size) :
    decodeValues params data =
      .error (.tooShort (Param.listing params) (Text.Hex.ofBytes data) data.length) := by
  have hempty : params.isEmpty = false := by simpa using hne
  unfold decodeValues
  rw [hempty, if_neg Bool.false_ne_true]
  cases hsize : Param.headBytes params with
  | none => rfl
  | some size =>
    have hshort : ¬size ≤ data.length := Nat.not_le.mpr (h size hsize)
    dsimp only
    rw [decide_eq_false hshort, if_pos (by decide)]

/-- Data that has the head of parameters is decoded for their types. -/
theorem decodeValues_of_headBytes [Memory] (hne : params ≠ []) {size : Nat}
    (hsize : Param.headBytes params = some size) (hle : size ≤ data.length) :
    decodeValues params data =
      match decode (params.map Param.type) data with
      | .error e => .error (.misfit (Param.listing params) data.length e.message)
      | .ok values => .ok (List.zipWith (fun v (p : Param) => label p.components v) values params) := by
  have hempty : params.isEmpty = false := by simpa using hne
  unfold decodeValues
  rw [hempty, if_neg Bool.false_ne_true, hsize]
  dsimp only
  cases decode (params.map Param.type) data with
  | error e => rw [decide_eq_true hle, if_neg (by decide)]
  | ok values => rw [decide_eq_true hle, if_neg (by decide)]

/-- Data is decoded for parameters exactly if it has their head and is decoded for their types. The
values are those of the types, with the names of the components put on. -/
theorem decodeValues_eq_ok_iff [Memory] (hne : params ≠ []) :
    decodeValues params data = .ok vs ↔
      ∃ size values, Param.headBytes params = some size ∧ size ≤ data.length ∧
        decode (params.map Param.type) data = .ok values ∧
        vs = List.zipWith (fun v (p : Param) => label p.components v) values params := by
  by_cases hfits : ∃ size, Param.headBytes params = some size ∧ size ≤ data.length
  · obtain ⟨size, hsize, hle⟩ := hfits
    rw [decodeValues_of_headBytes hne hsize hle]
    cases decode (params.map Param.type) data with
    | error e =>
      constructor
      · intro hc
        cases hc
      · rintro ⟨-, values, -, -, hc, -⟩
        cases hc
    | ok values =>
      constructor
      · intro hok
        exact ⟨size, values, hsize, hle, rfl, (Except.ok.inj hok).symm⟩
      · rintro ⟨-, values', -, -, hvalues, rfl⟩
        rw [Except.ok.inj hvalues]
  · have hshort : ∀ size, Param.headBytes params = some size → data.length < size :=
      fun size hsize => Nat.not_le.mp fun hle => hfits ⟨size, hsize, hle⟩
    rw [decodeValues_of_tooShort hne hshort]
    constructor
    · intro hc
      cases hc
    · rintro ⟨size, -, hsize, hle, -⟩
      exact absurd ⟨size, hsize, hle⟩ hfits

/-- Data is not decoded because it is too short for the head of the parameters, or because it is not
decoded for their types. The fault blames the parameters. -/
theorem of_decodeValues_error [Memory] {e : DecodeFault} (h : decodeValues params data = .error e) :
    e = .tooShort (Param.listing params) (Text.Hex.ofBytes data) data.length ∨
      ∃ misfit, decode (params.map Param.type) data = .error misfit ∧
        e = .misfit (Param.listing params) data.length misfit.message := by
  by_cases hnone : params = []
  · rw [hnone, decodeValues_nil] at h
    cases h
  · by_cases hfits : ∃ size, Param.headBytes params = some size ∧ size ≤ data.length
    · obtain ⟨size, hsize, hle⟩ := hfits
      rw [decodeValues_of_headBytes hnone hsize hle] at h
      cases hdecode : decode (params.map Param.type) data with
      | error misfit =>
        rw [hdecode] at h
        exact .inr ⟨misfit, rfl, (Except.error.inj h).symm⟩
      | ok values =>
        rw [hdecode] at h
        cases h
    · rw [decodeValues_of_tooShort hnone fun size hsize =>
        Nat.not_le.mp fun hle => hfits ⟨size, hsize, hle⟩] at h
      exact .inl (Except.error.inj h).symm

/-- Values that are nested like types are as many. -/
theorem length_of_haveShapes {ts : List AbiType} (h : HaveShapes ts vs) : vs.length = ts.length := by
  induction ts generalizing vs with
  | nil =>
    cases vs with
    | nil => rfl
    | cons v vs => exact False.elim h
  | cons t ts ih =>
    cases vs with
    | nil => exact False.elim h
    | cons v vs => rw [List.length_cons, List.length_cons, ih h.2]

/-- Each parameter is given one value, unless their types are made of nothing. -/
theorem length_of_decodeValues [Memory] (h : decodeValues params data = .ok vs) :
    vs.length = if AbiType.allEmpty (params.map Param.type) then 0 else params.length := by
  by_cases hnone : params = []
  · rw [hnone, decodeValues_nil] at h
    cases h
    rw [hnone]
    rfl
  · obtain ⟨size, values, -, -, hdecode, rfl⟩ := (decodeValues_eq_ok_iff hnone).mp h
    rw [List.length_zipWith]
    cases hempty : AbiType.allEmpty (params.map Param.type) with
    | true =>
      rw [decode_of_allEmpty hempty] at hdecode
      cases hdecode
      rw [if_pos rfl, List.length_nil, Nat.zero_min]
    | false =>
      obtain ⟨-, -, -, hvalues⟩ := (decode_eq_ok_iff hempty).mp hdecode
      have hlength := length_of_haveShapes (haveShapes_of_readEach _ _ _ _ _ _ hvalues)
      rw [List.length_map] at hlength
      rw [if_neg Bool.false_ne_true, hlength, Nat.min_self]

/-- No more values are given than there are parameters. -/
theorem length_decodeValues_le [Memory] (h : decodeValues params data = .ok vs) :
    vs.length ≤ params.length := by
  rw [length_of_decodeValues h]
  split
  · exact Nat.zero_le _
  · exact Nat.le_refl _

end RollupInput.Abi
