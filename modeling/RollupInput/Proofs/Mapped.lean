/-!
# Mapped outcomes

Readers of lists read the head and map what they make of the tail. An outcome that is mapped fails
exactly if it fails before, with the same fault, and its value is the image of one.
-/

namespace RollupInput

variable {ε α β : Type}

/-- A mapped outcome has the fault of the outcome. -/
theorem error_of_map {x : Except ε α} {f : α → β} {e : ε} (h : x.map f = .error e) :
    x = .error e := by
  cases x with
  | error fault =>
    cases h
    rfl
  | ok a => cases h

/-- A mapped outcome has the image of a value. -/
theorem ok_of_map {x : Except ε α} {f : α → β} {b : β} (h : x.map f = .ok b) :
    ∃ a, x = .ok a ∧ f a = b := by
  cases x with
  | error fault => cases h
  | ok a =>
    cases h
    exact ⟨a, rfl, rfl⟩

/-- An outcome that is gone on with has a value, and so has what comes of it. -/
theorem ok_of_bind {x : Except ε α} {f : α → Except ε β} {b : β} (h : (x >>= f) = .ok b) :
    ∃ a, x = .ok a ∧ f a = .ok b := by
  cases x with
  | error fault => cases h
  | ok a => exact ⟨a, rfl, h⟩

/-- Going on with an outcome that has a value is going on with the value. -/
theorem bind_of_ok {x : Except ε α} {a : α} (h : x = .ok a) (f : α → Except ε β) :
    (x >>= f) = f a := by
  rw [h]
  rfl

/-- An outcome whose fault is put elsewhere has the same values. -/
theorem ok_of_mapError {δ : Type} {x : Except ε α} {f : ε → δ} {a : α}
    (h : x.mapError f = .ok a) : x = .ok a := by
  cases x with
  | error fault => cases h
  | ok b =>
    cases h
    rfl

/-- An outcome that is mapped twice is mapped by both functions, one after the other. -/
theorem map_map {γ : Type} (f : α → β) (g : β → γ) (x : Except ε α) :
    (x.map f).map g = x.map fun a => g (f a) := by
  cases x with
  | error fault => rfl
  | ok a => rfl

/-- A mapped outcome has a value exactly if the outcome has. -/
theorem toOption_map (f : α → β) (x : Except ε α) : (x.map f).toOption = x.toOption.map f := by
  cases x with
  | error fault => rfl
  | ok a => rfl

/-- The fault of an outcome, if it has one. -/
def fault? : Except ε α → Option ε
  | .error e => some e
  | .ok _ => none

/-- A mapped outcome has the same fault. -/
theorem fault?_map (f : α → β) (x : Except ε α) : fault? (x.map f) = fault? x := by
  cases x with
  | error fault => rfl
  | ok a => rfl

/-- An outcome is a value if its option is. -/
theorem eq_ok_of_toOption {x : Except ε α} {a : α} (h : x.toOption = some a) : x = .ok a := by
  cases x with
  | error fault => cases h
  | ok b =>
    cases h
    rfl

end RollupInput
