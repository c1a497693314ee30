/-!
# Looking up names

A list of pairs is searched for the first pair of a name. Behind that pair the list does not
matter, and a name that stands in no pair is not found. A pair that is put in by its name is found
under it, and what is found under other names stays.
-/

namespace RollupInput

variable {β : Type}

/-- Looking a name up in front of pairs. -/
theorem lookup_cons_eq_ite (key name : String) (v : β) (entries : List (String × β)) :
    ((name, v) :: entries).lookup key = if key = name then some v else entries.lookup key := by
  rw [List.lookup_cons]
  by_cases h : key = name
  · rw [if_pos h, beq_iff_eq.mpr h]
  · rw [if_neg h, beq_eq_false_iff_ne.mpr h]

/-- A name that no pair has is not found. -/
theorem lookup_eq_none_of_notMem {key : String} {entries : List (String × β)}
    (h : key ∉ entries.map (·.1)) : entries.lookup key = none := by
  induction entries with
  | nil => rfl
  | cons e rest ih =>
    obtain ⟨name, v⟩ := e
    rw [List.map_cons, List.mem_cons, not_or] at h
    rw [lookup_cons_eq_ite, if_neg h.1, ih h.2]

/-- What is found is in a pair of the name. -/
theorem mem_of_lookup {key : String} {v : β} {entries : List (String × β)}
    (h : entries.lookup key = some v) : (key, v) ∈ entries := by
  induction entries with
  | nil => cases h
  | cons e rest ih =>
    obtain ⟨name, w⟩ := e
    rw [lookup_cons_eq_ite] at h
    by_cases hkey : key = name
    · rw [if_pos hkey] at h
      cases h
      rw [hkey]
      exact .head _
    · rw [if_neg hkey] at h
      exact .tail _ (ih h)

/-- Whether a value is put into pairs by its name: in place of the first of the name, unless a pair
of a greater name comes before, which it is put in front of. -/
structure InsertsByName (insert : String → β → List (String × β) → List (String × β)) : Prop where
  /-- It is put into nothing. -/
  nil : ∀ name v, insert name v [] = [(name, v)]
  /-- It is put among pairs. -/
  cons : ∀ name v other w rest, insert name v ((other, w) :: rest) =
    if name = other then (name, v) :: rest
    else if name < other then (name, v) :: (other, w) :: rest
    else (other, w) :: insert name v rest

/-- A value that is put in by its name is found under it, and all others stay. -/
theorem InsertsByName.lookup_eq_ite {insert : String → β → List (String × β) → List (String × β)}
    (hinsert : InsertsByName insert) (name key : String) (v : β) (entries : List (String × β)) :
    (insert name v entries).lookup key = if key = name then some v else entries.lookup key := by
  induction entries with
  | nil =>
    rw [hinsert.nil]
    exact lookup_cons_eq_ite key name v []
  | cons e rest ih =>
    obtain ⟨other, w⟩ := e
    rw [hinsert.cons]
    by_cases hsame : name = other
    · subst hsame
      rw [if_pos rfl, lookup_cons_eq_ite, lookup_cons_eq_ite]
      by_cases h : key = name
      · rw [if_pos h, if_pos h]
      · rw [if_neg h, if_neg h, if_neg h]
    · rw [if_neg hsame]
      by_cases hlt : name < other
      · rw [if_pos hlt, lookup_cons_eq_ite]
      · rw [if_neg hlt, lookup_cons_eq_ite, ih, lookup_cons_eq_ite]
        by_cases h : key = name
        · rw [if_pos h, if_pos h, if_neg (fun hc => hsame (h.symm.trans hc))]
        · rw [if_neg h, if_neg h]

end RollupInput
