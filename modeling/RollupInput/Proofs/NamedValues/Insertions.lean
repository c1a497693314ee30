import Mathlib.Data.Finset.Card
import Mathlib.Data.Finset.Dedup
import RollupInput.Proofs.NamedValues

/-!
# What insertions leave

Insertions one after the other leave every name that was inserted at the place of its first insertion,
with the value of its last one. One more insertion keeps this: the first insertions of the names that
are there stay where they are, a new name comes first with it, and it is the last one for its own name
alone. The sequences follow by induction from the end.
-/

namespace RollupInput.NamedValues

open Abi

/-- The names of insertions, in order and with repetitions. -/
def insertedNames (entries : List (String × Value)) : List String := entries.map (·.1)

/-- Whether a value is inserted under a name and the name is not inserted again behind it. -/
def IsLastInserted (entries : List (String × Value)) (name : String) (v : Value) : Prop :=
  ∃ before after, entries = before ++ (name, v) :: after ∧ name ∉ insertedNames after

/-- Whether values by name are what insertions leave. -/
structure IsLeftBy (entries : List (String × Value)) (r : NamedValues) : Prop where
  /-- No name stands twice. -/
  keys_nodup : r.keys.Nodup
  /-- The names are the inserted ones. -/
  mem_keys_iff : ∀ name, name ∈ r.keys ↔ name ∈ insertedNames entries
  /-- They stand in the order of their first insertions. -/
  keys_pairwise : r.keys.Pairwise fun name other =>
    (insertedNames entries).idxOf name < (insertedNames entries).idxOf other
  /-- A name that was inserted has the value of its last insertion. -/
  get?_eq_some_iff : ∀ name v, r.get? name = some v ↔ IsLastInserted entries name v
  /-- A name that was not inserted has no value. -/
  get?_eq_none_iff : ∀ name, r.get? name = none ↔ name ∉ insertedNames entries
  /-- There are as many values as different names were inserted. -/
  size_eq : r.size = (insertedNames entries).toFinset.card

/-- The names of one more insertion. -/
theorem insertedNames_concat (entries : List (String × Value)) (e : String × Value) :
    insertedNames (entries ++ [e]) = insertedNames entries ++ [e.1] := by
  simp [insertedNames]

/-- One more insertion is the last of its own name, and leaves the last ones of all others. -/
theorem isLastInserted_concat_iff {entries : List (String × Value)} {e : String × Value}
    {name : String} {v : Value} :
    IsLastInserted (entries ++ [e]) name v ↔
      if name = e.1 then v = e.2 else IsLastInserted entries name v := by
  constructor
  · rintro ⟨before, after, heq, hafter⟩
    rcases List.eq_nil_or_concat after with rfl | ⟨earlier, last, rfl⟩
    · have hlast : e = (name, v) := by simpa using List.append_inj_right' heq rfl
      simp [hlast]
    · have hsplit : entries ++ [e] = (before ++ (name, v) :: earlier) ++ [last] := by
        simpa using heq
      have hentries : entries = before ++ (name, v) :: earlier := List.append_inj_left' hsplit rfl
      have hlast : e = last := by simpa using List.append_inj_right' hsplit rfl
      rw [List.concat_eq_append, insertedNames_concat, ← hlast] at hafter
      have hother : name ≠ e.1 := fun h => hafter (by simp [h])
      have hearlier : name ∉ insertedNames earlier := fun h => hafter (by simp [h])
      rw [if_neg hother]
      exact ⟨before, earlier, hentries, hearlier⟩
  · intro h
    by_cases hname : name = e.1
    · rw [if_pos hname] at h
      refine ⟨entries, [], ?_, by simp [insertedNames]⟩
      rw [hname, h]
    · rw [if_neg hname] at h
      obtain ⟨before, after, rfl, hafter⟩ := h
      refine ⟨before, after ++ [e], by simp, ?_⟩
      rw [insertedNames_concat]
      simpa [hname] using hafter

/-- The keys are the inserted names. -/
theorem mem_keys_insertAll_iff (entries : List (String × Value)) (name : String) :
    name ∈ (empty.insertAll entries).keys ↔ name ∈ insertedNames entries := by
  rw [keys_insertAll, List.mem_eraseDups, insertedNames]

/-- The keys stand in the order of their first insertions. -/
theorem pairwise_keys_insertAll (entries : List (String × Value)) :
    (empty.insertAll entries).keys.Pairwise fun name other =>
      (insertedNames entries).idxOf name < (insertedNames entries).idxOf other := by
  induction entries using List.reverseRecOn with
  | nil => exact List.Pairwise.nil
  | append_singleton entries e ih =>
    have hplace : ∀ name ∈ (empty.insertAll entries).keys,
        (insertedNames entries ++ [e.1]).idxOf name = (insertedNames entries).idxOf name := by
      intro name hname
      exact List.idxOf_append_of_mem ((mem_keys_insertAll_iff entries name).mp hname)
    have hkept : (empty.insertAll entries).keys.Pairwise fun name other =>
        (insertedNames entries ++ [e.1]).idxOf name <
          (insertedNames entries ++ [e.1]).idxOf other := by
      refine ih.imp_of_mem ?_
      intro name other hname hother hlt
      rwa [hplace name hname, hplace other hother]
    rw [insertAll_concat, keys_insert, insertedNames_concat]
    split
    · exact hkept
    · rename_i hnew
      rw [mem_keys_insertAll_iff] at hnew
      refine List.pairwise_append.mpr ⟨hkept, List.pairwise_singleton _ _, ?_⟩
      -- The names that are there were first inserted before the new one, which is first inserted now.
      intro name hname other hother
      have hbefore := List.idxOf_lt_length_of_mem ((mem_keys_insertAll_iff entries name).mp hname)
      rw [List.mem_singleton.mp hother, hplace name hname, List.idxOf_append_of_notMem hnew]
      omega

/-- The value of a name is that of its last insertion. -/
theorem get?_insertAll_eq_some_iff (entries : List (String × Value)) (name : String) (v : Value) :
    (empty.insertAll entries).get? name = some v ↔ IsLastInserted entries name v := by
  induction entries using List.reverseRecOn with
  | nil => simp [insertAll, get?, empty, IsLastInserted]
  | append_singleton entries e ih =>
    rw [insertAll_concat, get?_insert, isLastInserted_concat_iff, ← ih]
    split
    · simp [eq_comm]
    · exact Iff.rfl

/-- A name has no value exactly if it was not inserted. -/
theorem get?_insertAll_eq_none_iff (entries : List (String × Value)) (name : String) :
    (empty.insertAll entries).get? name = none ↔ name ∉ insertedNames entries := by
  rw [← mem_keys_insertAll_iff, ← contains_iff_mem_keys]
  simp [contains]

/-- There are as many values as different names were inserted. -/
theorem size_insertAll_eq_card (entries : List (String × Value)) :
    (empty.insertAll entries).size = (insertedNames entries).toFinset.card := by
  have hnames : (empty.insertAll entries).keys.toFinset = (insertedNames entries).toFinset := by
    ext name
    rw [List.mem_toFinset, List.mem_toFinset, mem_keys_insertAll_iff]
  rw [← hnames, List.toFinset_card_of_nodup (nodup_keys_insertAll entries)]
  simp [size, keys]

/-- Whatever is inserted one after the other, every name stands once, at the place of its first
insertion and with the value of its last one. -/
theorem last_values_kept (entries : List (String × Value)) :
    IsLeftBy entries (empty.insertAll entries) where
  keys_nodup := nodup_keys_insertAll entries
  mem_keys_iff := mem_keys_insertAll_iff entries
  keys_pairwise := pairwise_keys_insertAll entries
  get?_eq_some_iff := get?_insertAll_eq_some_iff entries
  get?_eq_none_iff := get?_insertAll_eq_none_iff entries
  size_eq := size_insertAll_eq_card entries

example :
    empty.insertAll [("amount", .uint 1), ("data", .uint 2), ("amount", .uint 3)] =
      ⟨[("amount", .uint 3), ("data", .uint 2)]⟩ := by
  rfl

end RollupInput.NamedValues
