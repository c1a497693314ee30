import RollupInput.Proofs.Json.Sorted
import RollupInput.Proofs.Mapped

/-!
# Reading what was written

Data is read back if reading the sorted form of what it is written as gives the data. Scalars,
choices and lists are; the fields of a record are if the data in them is, because they are found by
their names. In the other direction, whatever is read as a field was read from some value.
-/

namespace RollupInput.Json

variable {α : Type}

/-- Whether data is read from the sorted form of what it is written as. -/
def IsReadBack (read : Json → Shaped α) (write : α → Json) (a : α) : Prop :=
  read (write a).sorted = .ok a

/-- Strings are read back. -/
theorem isReadBack_string (s : String) : IsReadBack asString .str s := rfl

/-- Truth values are read back. -/
theorem isReadBack_bool (b : Bool) : IsReadBack asBool .bool b := rfl

/-- Natural numbers below the limit are read back. -/
theorem isReadBack_nat {limit n : Nat} (h : n < limit) : IsReadBack (asNatBelow limit) nat n :=
  if_pos h

/-- Choices are read back from their names. -/
theorem isReadBack_choice (isNothing : Json → Bool) {choices : List (String × α)} {text : α → String}
    {a : α} (h : choices.lookup (text a) = some a) :
    IsReadBack (asChoice isNothing choices) (fun a => .str (text a)) a := by
  unfold IsReadBack asChoice
  have hname : (some (text a)).bind (fun name => choices.lookup name) = some a := h
  dsimp only [sorted]
  rw [hname]

/-- Items that are read back one by one are read back in order. -/
theorem readItemsFrom_map {read : Json → Shaped α} {write : α → Json} {as : List α}
    (h : ∀ a ∈ as, IsReadBack read write a) (index : Nat) :
    readItemsFrom read index (as.map fun a => (write a).sorted) = .ok as := by
  induction as generalizing index with
  | nil => rfl
  | cons a rest ih =>
    have hrest := ih (fun b hb => h b (List.mem_cons_of_mem a hb)) (index + 1)
    have ha : read (write a).sorted = .ok a := h a List.mem_cons_self
    rw [List.map_cons, readItemsFrom, ha]
    dsimp only
    rw [hrest]
    rfl

/-- Lists of data that is read back are read back. -/
theorem isReadBack_list {read : Json → Shaped α} {write : α → Json} {as : List α}
    (h : ∀ a ∈ as, IsReadBack read write a) :
    IsReadBack (asList read) (fun as => .arr (as.map write)) as := by
  unfold IsReadBack
  dsimp only
  rw [sorted_arr, List.map_map]
  exact readItemsFrom_map h 0

/-- The fields of a record that is written as an object. -/
theorem fields_sorted_object (names : List String) (members : List (String × Option Json)) :
    (object members).sorted.fields names = .ok (present members) := by
  rw [sorted_object]
  rfl

/-- An object is one of members that may be absent, of which none is. -/
theorem obj_eq_object (members : List (String × Json)) :
    Json.obj members = object (members.map fun m => (m.1, some m.2)) := by
  rw [object, List.filterMap_map]
  congr 1
  exact List.filterMap_some.symm

variable {read : Json → Shaped α} {write : α → Json} {members : List (String × Option Json)}
  {name : String}

/-- A field that has to be there is read back. -/
theorem required_present {a : α} (h : IsReadBack read write a)
    (hnodup : (members.map (·.1)).Nodup) (hmember : members.lookup name = some (some (write a))) :
    required name read (present members) = .ok a := by
  have hread : read (write a).sorted = .ok a := h
  unfold required
  rw [lookup_present_sorted hnodup, hmember]
  dsimp only [Option.join_some, Option.map_some]
  rw [hread]
  rfl

/-- A field with a default that is there is read back. -/
theorem defaulted_present {a : α} (h : IsReadBack read write a) (default : α)
    (hnodup : (members.map (·.1)).Nodup) (hmember : members.lookup name = some (some (write a))) :
    defaulted name default read (present members) = .ok a := by
  have hread : read (write a).sorted = .ok a := h
  unfold defaulted
  rw [lookup_present_sorted hnodup, hmember]
  dsimp only [Option.join_some, Option.map_some]
  rw [hread]
  rfl

/-- A field with a default that is left out is read as the default. -/
theorem defaulted_absent (default : α) (hnodup : (members.map (·.1)).Nodup)
    (hmember : (members.lookup name).join = none) :
    defaulted name default read (present members) = .ok default := by
  unfold defaulted
  rw [lookup_present_sorted hnodup, hmember]
  rfl

/-- A field that may be absent is read back, if nothing is read from `null`. -/
theorem optional_present (hnodup : (members.map (·.1)).Nodup) {o : Option α}
    (hmember : members.lookup name = some (o.map write)) (hnull : ∀ a, read .null ≠ .ok a)
    (h : ∀ a ∈ o, IsReadBack read write a) :
    optional name read (present members) = .ok o := by
  unfold optional
  rw [lookup_present_sorted hnodup, hmember]
  cases o with
  | none => rfl
  | some a =>
    have hread : read (write a).sorted = .ok a := h a rfl
    dsimp only [Option.map_some, Option.join_some]
    split
    · next heq => cases heq
    · next heq =>
      rw [Option.some.inj heq] at hread
      exact absurd hread (hnull a)
    · next v _ heq =>
      rw [← Option.some.inj heq, hread]
      rfl

/-- A field that may be absent and is left out is absent. -/
theorem optional_absent (hnodup : (members.map (·.1)).Nodup)
    (hmember : (members.lookup name).join = none) :
    optional name read (present members) = .ok none := by
  unfold optional
  rw [lookup_present_sorted hnodup, hmember]
  rfl

variable {known : List (String × Json)}

/-- A field that is there was read from a value. -/
theorem exists_of_required {a : α} (h : required name read known = .ok a) :
    ∃ v, read v = .ok a := by
  unfold required at h
  split at h
  · cases h
  · next v _ => exact ⟨v, ok_of_mapError h⟩

/-- A field with a default is the default, or was read from a value. -/
theorem eq_or_exists_of_defaulted {default a : α} (h : defaulted name default read known = .ok a) :
    a = default ∨ ∃ v, read v = .ok a := by
  unfold defaulted at h
  split at h
  · cases h
    exact .inl rfl
  · next v _ => exact .inr ⟨v, ok_of_mapError h⟩

/-- A field that may be absent was read from a value if it is there. -/
theorem exists_of_optional {o : Option α} (h : optional name read known = .ok o) :
    ∀ a ∈ o, ∃ v, read v = .ok a := by
  unfold optional at h
  split at h
  · cases h
    intro a ha
    cases ha
  · cases h
    intro a ha
    cases ha
  · next v _ _ =>
    obtain ⟨b, hb, rfl⟩ := ok_of_map (ok_of_mapError h)
    intro a ha
    cases ha
    exact ⟨v, hb⟩

/-- The items of a list that is read were read from values. -/
theorem exists_of_readItemsFrom {index : Nat} {items : List Json} {as : List α}
    (h : readItemsFrom read index items = .ok as) : ∀ a ∈ as, ∃ v, read v = .ok a := by
  induction items generalizing index as with
  | nil =>
    cases h
    intro a ha
    cases ha
  | cons v rest ih =>
    rw [readItemsFrom] at h
    cases hread : read v with
    | error e =>
      rw [hread] at h
      cases h
    | ok b =>
      rw [hread] at h
      obtain ⟨bs, hbs, rfl⟩ := ok_of_map h
      intro a ha
      rcases List.mem_cons.mp ha with rfl | ha
      · exact ⟨v, hread⟩
      · exact ih hbs a ha

/-- The data of a list that is read was read from values. -/
theorem exists_of_asList {v : Json} {as : List α} (h : asList read v = .ok as) :
    ∀ a ∈ as, ∃ w, read w = .ok a := by
  unfold asList at h
  split at h
  · exact exists_of_readItemsFrom h
  · cases h

/-- A number that is read is below the limit. -/
theorem lt_of_asNatBelow {limit n : Nat} {v : Json} (h : asNatBelow limit v = .ok n) :
    n < limit := by
  unfold asNatBelow at h
  split at h
  · split at h
    · next hlt =>
      cases h
      exact hlt
    · cases h
  · cases h

end RollupInput.Json
