import RollupInput.Abi.Reader

/-!
# Shapes of decoded values

Whatever the data, a value that is decoded is nested like its type: an array where the type has
one, and a tuple of as many fields where it has a tuple. Nothing is said of the scalars. The
induction is on the type, with the reader of its values.
-/

namespace RollupInput.Abi

mutual

/-- Whether a value is nested like a type. -/
def HasShape : AbiType → Value → Prop
  | .array element, .array vs => ∀ v ∈ vs, HasShape element v
  | .fixedArray element _, .array vs => ∀ v ∈ vs, HasShape element v
  | .tuple fields, .tuple vs => HaveShapes fields vs
  | .array _, _ => False
  | .fixedArray _ _, _ => False
  | .tuple _, _ => False
  | _, _ => True

/-- Whether values are nested like the types of a list, one for one. -/
def HaveShapes : List AbiType → List Value → Prop
  | [], [] => True
  | t :: ts, v :: vs => HasShape t v ∧ HaveShapes ts vs
  | _, _ => False

end

/-- A reading that is gone on with has a value, and so has what comes of it. -/
theorem Weighed.outcome_of_bind {α β : Type} {x : Weighed α} {f : α → Weighed β} {b : β}
    (h : (x >>= f).outcome = .ok b) : ∃ a, x.outcome = .ok a ∧ (f a).outcome = .ok b := by
  obtain ⟨weight, outcome⟩ := x
  cases outcome with
  | error e => cases h
  | ok a => exact ⟨a, rfl, h⟩

/-- A reading whose value is changed has the image of a value. -/
theorem Weighed.outcome_of_map {α β : Type} {x : Weighed α} {f : α → β} {b : β}
    (h : (f <$> x).outcome = .ok b) : ∃ a, x.outcome = .ok a ∧ f a = b := by
  obtain ⟨weight, outcome⟩ := x
  cases outcome with
  | error e => cases h
  | ok a =>
    cases h
    exact ⟨a, rfl, rfl⟩

/-- Going on with a misfit. -/
theorem Weighed.fail_bind {α β : Type} (e : Misfit) (f : α → Weighed β) :
    (Weighed.fail e : Weighed α) >>= f = .fail e := rfl

/-- Changing the value of a misfit. -/
theorem Weighed.map_fail {α β : Type} (e : Misfit) (f : α → β) :
    f <$> (Weighed.fail e : Weighed α) = .fail e := rfl

section

variable {reader : ValueReader} {readers : List ValueReader} {base n pos : Nat} {vs : List Value}

/-- A row of values that is read is the first of them and the others. -/
theorem exists_of_readRow (h : (readRow reader base (n + 1) pos).outcome = .ok vs) :
    ∃ v rest, vs = v :: rest ∧ (reader.read base pos).outcome = .ok v ∧
      (readRow reader base n (pos + reader.placeBytes)).outcome = .ok rest := by
  rw [readRow] at h
  obtain ⟨v, hv, h⟩ := Weighed.outcome_of_bind h
  obtain ⟨rest, hrest, h⟩ := Weighed.outcome_of_bind h
  exact ⟨v, rest, (Except.ok.inj h).symm, hv, hrest⟩

/-- Values of several types that are read are the first of them and the others. -/
theorem exists_of_readEach (h : (readEach base (reader :: readers) pos).outcome = .ok vs) :
    ∃ v rest, vs = v :: rest ∧ (reader.read base pos).outcome = .ok v ∧
      (readEach base readers (pos + reader.placeBytes)).outcome = .ok rest := by
  rw [readEach] at h
  obtain ⟨v, hv, h⟩ := Weighed.outcome_of_bind h
  obtain ⟨rest, hrest, h⟩ := Weighed.outcome_of_bind h
  exact ⟨v, rest, (Except.ok.inj h).symm, hv, hrest⟩

/-- The values of a row have what every value of the reader has. -/
theorem forall_of_readRow {P : Value → Prop}
    (hreader : ∀ pos v, (reader.read base pos).outcome = .ok v → P v)
    (h : (readRow reader base n pos).outcome = .ok vs) : ∀ v ∈ vs, P v := by
  induction n generalizing pos vs with
  | zero =>
    cases h
    intro v hv
    cases hv
  | succ n ih =>
    obtain ⟨v, rest, rfl, hv, hrest⟩ := exists_of_readRow h
    exact List.forall_mem_cons.mpr ⟨hreader pos v hv, ih hrest⟩

end

/-- The elements of an array of any size have what every value of the reader has. -/
theorem forall_of_arrayAt {P : Value → Prop} {data : Array UInt8} {depth : Nat}
    {element : AbiType} {reader : ValueReader} {start : Nat} {vs : List Value}
    (hreader : ∀ base pos v, (reader.read base pos).outcome = .ok v → P v)
    (h : (arrayAt data depth element reader start).outcome = .ok vs) : ∀ v ∈ vs, P v := by
  obtain ⟨size, -, h⟩ := Weighed.outcome_of_bind h
  dsimp only at h
  split at h
  · cases h
    intro v hv
    cases hv
  · obtain ⟨-, -, h⟩ := Weighed.outcome_of_bind h
    split at h
    · cases h
    · obtain ⟨-, -, h⟩ := Weighed.outcome_of_bind h
      exact forall_of_readRow (hreader _) h

/-- Values made of parts are the values of their parts. -/
theorem exists_of_partsReader {data : Array UInt8} {depth : Nat} {indirect : Bool} {size : Nat}
    {parts : Nat → Weighed Value} {base pos : Nat} {v : Value}
    (h : ((partsReader data depth indirect size parts).read base pos).outcome = .ok v) :
    ∃ start, (parts start).outcome = .ok v := by
  dsimp only [partsReader] at h
  split at h
  · obtain ⟨start, -, h⟩ := Weighed.outcome_of_bind h
    exact ⟨start, h⟩
  · obtain ⟨-, -, h⟩ := Weighed.outcome_of_bind h
    exact ⟨pos, h⟩

section

variable {data : Array UInt8} {depth base pos : Nat} {v : Value}

/-- An array of any size that is read has the elements that are read behind an offset. -/
theorem exists_of_read_array {element : AbiType}
    (h : ((valueReader data depth (.array element)).read base pos).outcome = .ok v) :
    ∃ start vs, v = .array vs ∧
      (arrayAt data (depth + 1) element (valueReader data (depth + 2) element) start).outcome =
        .ok vs := by
  rw [valueReader] at h
  obtain ⟨start, -, h⟩ := Weighed.outcome_of_bind h
  rw [LazyTable.get_ofFn] at h
  obtain ⟨vs, hvs, rfl⟩ := Weighed.outcome_of_map h
  exact ⟨start, vs, rfl, hvs⟩

/-- An array of fixed size that is read is a row of its elements. -/
theorem exists_of_read_fixedArray {element : AbiType} {size : Nat}
    (h : ((valueReader data depth (.fixedArray element size)).read base pos).outcome = .ok v) :
    ∃ start vs, v = .array vs ∧
      (readRow (valueReader data (depth + 1) element) start size start).outcome = .ok vs := by
  rw [valueReader] at h
  obtain ⟨start, h⟩ := exists_of_partsReader h
  obtain ⟨vs, hvs, rfl⟩ := Weighed.outcome_of_map h
  exact ⟨start, vs, rfl, hvs⟩

/-- A tuple that is read has its fields one after the other. -/
theorem exists_of_read_tuple {fields : List AbiType}
    (h : ((valueReader data depth (.tuple fields)).read base pos).outcome = .ok v) :
    ∃ start vs, v = .tuple vs ∧
      (readEach start (fieldReaders data (depth + 1) fields) start).outcome = .ok vs := by
  rw [valueReader] at h
  obtain ⟨start, h⟩ := exists_of_partsReader h
  obtain ⟨vs, hvs, rfl⟩ := Weighed.outcome_of_map h
  exact ⟨start, vs, rfl, hvs⟩

end

mutual

/-- A value that is read is nested like its type. -/
theorem hasShape_of_read (data : Array UInt8) (t : AbiType) (depth base pos : Nat) (v : Value)
    (h : ((valueReader data depth t).read base pos).outcome = .ok v) : HasShape t v := by
  cases t with
  | array element =>
    obtain ⟨start, vs, rfl, hvs⟩ := exists_of_read_array h
    exact forall_of_arrayAt (hasShape_of_read data element (depth + 2)) hvs
  | fixedArray element size =>
    obtain ⟨start, vs, rfl, hvs⟩ := exists_of_read_fixedArray h
    exact forall_of_readRow (hasShape_of_read data element (depth + 1) start) hvs
  | tuple fields =>
    obtain ⟨start, vs, rfl, hvs⟩ := exists_of_read_tuple h
    exact haveShapes_of_readEach data fields (depth + 1) start start vs hvs
  | _ => trivial

/-- Values that are read are nested like their types. -/
theorem haveShapes_of_readEach (data : Array UInt8) (ts : List AbiType) (depth base pos : Nat)
    (vs : List Value) (h : (readEach base (fieldReaders data depth ts) pos).outcome = .ok vs) :
    HaveShapes ts vs := by
  cases ts with
  | nil =>
    cases h
    trivial
  | cons t rest =>
    rw [fieldReaders] at h
    obtain ⟨v, more, rfl, hv, hmore⟩ := exists_of_readEach h
    exact ⟨hasShape_of_read data t depth base pos v hv,
      haveShapes_of_readEach data rest depth base _ more hmore⟩

end

end RollupInput.Abi
