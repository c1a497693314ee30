import RollupInput.Json.Reader
import RollupInput.Json.Shape
import RollupInput.Proofs.Lookup

/-!
# Sorted values

What is read from the text of a value has the members of its objects in the order of their names.
Members are found by name as before, so data that is read by name does not tell a value from its
sorted form.
-/

namespace RollupInput.Json

mutual

/-- The value with the members of all objects sorted by name; the last of equal names stays. -/
def sorted : Json → Json
  | .arr items => .arr (sortedItems items)
  | .obj members => .obj (sortedMembers [] members)
  | v => v

/-- The items of an array, each sorted. -/
def sortedItems : List Json → List Json
  | [] => []
  | v :: rest => sorted v :: sortedItems rest

/-- The members of an object, each sorted, put among members that are sorted. -/
def sortedMembers : List (String × Json) → List (String × Json) → List (String × Json)
  | known, [] => known
  | known, (name, v) :: rest => sortedMembers (insertMember name (sorted v) known) rest

end

/-- The items of an array are sorted one by one. -/
theorem sortedItems_eq_map (items : List Json) : sortedItems items = items.map sorted := by
  induction items with
  | nil => rfl
  | cons v rest ih => rw [sortedItems, ih, List.map_cons]

/-- An array of sorted items. -/
theorem sorted_arr (items : List Json) : (Json.arr items).sorted = .arr (items.map sorted) := by
  rw [sorted, sortedItems_eq_map]

/-- Members are put in by name. -/
theorem insertsByName_insertMember : InsertsByName insertMember :=
  ⟨fun _ _ => rfl, fun _ _ _ _ _ => rfl⟩

/-- A member is found sorted, unless it is not there. -/
theorem lookup_sortedMembers {members : List (String × Json)} (hnodup : (members.map (·.1)).Nodup)
    (known : List (String × Json)) (key : String) :
    (sortedMembers known members).lookup key =
      ((members.lookup key).map sorted).or (known.lookup key) := by
  induction members generalizing known with
  | nil => rfl
  | cons m rest ih =>
    obtain ⟨name, v⟩ := m
    rw [List.map_cons, List.nodup_cons] at hnodup
    rw [sortedMembers, ih hnodup.2, insertsByName_insertMember.lookup_eq_ite, lookup_cons_eq_ite]
    by_cases h : key = name
    · rw [if_pos h, if_pos h, h, lookup_eq_none_of_notMem hnodup.1]
      rfl
    · rw [if_neg h, if_neg h]

/-- The member under a name among members that may be absent. -/
theorem lookup_present {members : List (String × Option Json)} (hnodup : (members.map (·.1)).Nodup)
    (key : String) :
    (members.filterMap fun m => m.2.map (m.1, ·)).lookup key = (members.lookup key).join := by
  induction members with
  | nil => rfl
  | cons m rest ih =>
    obtain ⟨name, v⟩ := m
    rw [List.map_cons, List.nodup_cons] at hnodup
    have hrest := ih hnodup.2
    rw [List.filterMap_cons, lookup_cons_eq_ite]
    cases v with
    | none =>
      dsimp only [Option.map_none]
      rw [hrest]
      by_cases h : key = name
      · rw [if_pos h, h, lookup_eq_none_of_notMem hnodup.1]
        rfl
      · rw [if_neg h]
    | some v =>
      dsimp only [Option.map_some]
      rw [lookup_cons_eq_ite, hrest]
      by_cases h : key = name
      · rw [if_pos h, if_pos h]
        rfl
      · rw [if_neg h, if_neg h]

/-- The names of members that are there are names of members that may be absent. -/
theorem nodup_present {members : List (String × Option Json)} (hnodup : (members.map (·.1)).Nodup) :
    ((members.filterMap fun m => m.2.map (m.1, ·)).map (·.1)).Nodup := by
  refine hnodup.sublist ?_
  rw [List.map_filterMap]
  clear hnodup
  induction members with
  | nil => exact .slnil
  | cons m rest ih =>
    obtain ⟨name, v⟩ := m
    cases v with
    | none => exact ih.cons name
    | some v => exact ih.cons_cons name

/-- The members of an object whose members may be absent, sorted. -/
def present (members : List (String × Option Json)) : List (String × Json) :=
  sortedMembers [] (members.filterMap fun m => m.2.map (m.1, ·))

/-- The sorted form of an object whose members may be absent. -/
theorem sorted_object (members : List (String × Option Json)) :
    (object members).sorted = .obj (present members) := by
  rw [object, sorted, present]

/-- Members that are there are found under their names, sorted. -/
theorem lookup_present_sorted {members : List (String × Option Json)}
    (hnodup : (members.map (·.1)).Nodup) (key : String) :
    (present members).lookup key = (members.lookup key).join.map sorted := by
  unfold present
  rw [lookup_sortedMembers (nodup_present hnodup), lookup_present hnodup, List.lookup_nil,
    Option.or_none]

/-- The items of an array are less high than the array. -/
theorem height_lt_of_mem {v : Json} {items : List Json} (h : v ∈ items) :
    v.height < (Json.arr items).height := by
  rw [height, Nat.lt_succ_iff]
  induction items with
  | nil => cases h
  | cons w rest ih =>
    rw [heightItems]
    rcases List.mem_cons.mp h with rfl | h
    · exact Nat.le_max_left ..
    · exact Nat.le_trans (ih h) (Nat.le_max_right ..)

/-- The members of an object are less high than the object. -/
theorem height_lt_of_lookup {name : String} {v : Json} {members : List (String × Json)}
    (h : members.lookup name = some v) : v.height < (Json.obj members).height := by
  have hmem := mem_of_lookup h
  rw [height, Nat.lt_succ_iff]
  clear h
  induction members with
  | nil => cases hmem
  | cons m rest ih =>
    obtain ⟨other, w⟩ := m
    rw [heightMembers]
    rcases List.mem_cons.mp hmem with heq | hmem
    · cases heq
      exact Nat.le_max_left ..
    · exact Nat.le_trans (ih hmem) (Nat.le_max_right ..)

end RollupInput.Json
