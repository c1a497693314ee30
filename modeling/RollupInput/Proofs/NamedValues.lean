import RollupInput.NamedValues
import RollupInput.Proofs.Lookup
import Mathlib.Data.List.Induction

/-!
# Inserting named values

What a sequence of insertions leaves behind: the names in the order of their first insertion, each
once, and under each name the value of its last insertion. One insertion is described by its keys
and its values; the sequences follow by induction from the end.
-/

namespace RollupInput.NamedValues

open Abi

/-- A name is contained exactly if it is a key. -/
theorem contains_iff_mem_keys (r : NamedValues) (key : String) :
    r.contains key = true ↔ key ∈ r.keys := by
  unfold contains get? keys
  rw [List.lookup_isSome_iff, List.mem_map]
  constructor
  · rintro ⟨e, he, hkey⟩
    exact ⟨e, he, (beq_iff_eq.mp hkey).symm⟩
  · rintro ⟨e, he, hkey⟩
    exact ⟨e, he, beq_iff_eq.mpr hkey.symm⟩

/-- An insertion changes the value of its own name only. -/
theorem get?_insert (r : NamedValues) (name key : String) (v : Value) :
    (r.insert name v).get? key = if key = name then some v else r.get? key := by
  obtain ⟨entries⟩ := r
  unfold insert get?
  dsimp only
  induction entries with
  | nil => rw [insertEntry, lookup_cons_eq_ite]
  | cons e rest ih =>
    obtain ⟨other, w⟩ := e
    rw [insertEntry, lookup_cons_eq_ite key other w]
    by_cases hname : other = name
    · rw [if_pos hname, lookup_cons_eq_ite, hname]
      by_cases h : key = name
      · rw [if_pos h, if_pos h]
      · rw [if_neg h, if_neg h, if_neg h]
    · rw [if_neg hname, lookup_cons_eq_ite, ih]
      by_cases h : key = other
      · rw [if_pos h, if_pos h, if_neg (by rw [h]; exact hname)]
      · rw [if_neg h, if_neg h]

/-- An insertion adds its name behind the names, unless it is one of them. -/
theorem keys_insert (r : NamedValues) (name : String) (v : Value) :
    (r.insert name v).keys = if name ∈ r.keys then r.keys else r.keys ++ [name] := by
  obtain ⟨entries⟩ := r
  unfold insert keys
  dsimp only
  induction entries with
  | nil => rfl
  | cons e rest ih =>
    obtain ⟨other, w⟩ := e
    rw [insertEntry]
    by_cases hname : other = name
    · rw [if_pos hname, List.map_cons, List.map_cons, if_pos (by simp [hname])]
    · have hmem : name ∈ other :: rest.map (·.1) ↔ name ∈ rest.map (·.1) := by
        rw [List.mem_cons, or_iff_right (fun h => hname h.symm)]
      rw [if_neg hname, List.map_cons, ih, List.map_cons]
      by_cases h : name ∈ rest.map (·.1)
      · rw [if_pos h, if_pos (hmem.mpr h)]
      · rw [if_neg h, if_neg (fun hc => h (hmem.mp hc)), List.cons_append]

/-- A new name gets an entry behind the entries. -/
theorem insertEntry_of_notMem {name : String} {entries : List (String × Value)}
    (h : name ∉ entries.map (·.1)) (v : Value) :
    insertEntry name v entries = entries ++ [(name, v)] := by
  induction entries with
  | nil => rfl
  | cons e rest ih =>
    rw [List.map_cons, List.mem_cons, not_or] at h
    rw [insertEntry, if_neg (fun hc => h.1 hc.symm), ih h.2, List.cons_append]

/-- The last insertion of a sequence comes after the others. -/
theorem insertAll_concat (r : NamedValues) (entries : List (String × Value))
    (e : String × Value) :
    r.insertAll (entries ++ [e]) = (r.insertAll entries).insert e.1 e.2 := by
  unfold insertAll
  rw [List.foldl_append]
  rfl

/-- The names stand in the order of their first insertion. -/
theorem keys_insertAll (entries : List (String × Value)) :
    (empty.insertAll entries).keys = (entries.map (·.1)).eraseDups := by
  induction entries using List.reverseRecOn with
  | nil => rfl
  | append_singleton entries e ih =>
    rw [insertAll_concat, keys_insert, ih, List.map_append, List.eraseDups_append]
    by_cases h : e.1 ∈ entries.map (·.1)
    · rw [if_pos (List.mem_eraseDups.mpr h)]
      simp [List.removeAll, h]
    · have hnew : ([e].map (·.1)).removeAll (entries.map (·.1)) = [e.1] := by
        simp [List.removeAll, h]
      rw [if_neg (fun hc => h (List.mem_eraseDups.mp hc)), hnew]
      rfl

/-- Under a name stands the value of its last insertion. -/
theorem get?_insertAll (entries : List (String × Value)) (key : String) :
    (empty.insertAll entries).get? key = entries.reverse.lookup key := by
  induction entries using List.reverseRecOn with
  | nil => rfl
  | append_singleton entries e ih =>
    rw [insertAll_concat, get?_insert, ih, List.reverse_append, List.reverse_singleton,
      List.singleton_append, lookup_cons_eq_ite]

/-- No name stands twice. -/
theorem nodup_keys_insertAll (entries : List (String × Value)) :
    (empty.insertAll entries).keys.Nodup := by
  induction entries using List.reverseRecOn with
  | nil => exact List.nodup_nil
  | append_singleton entries e ih =>
    rw [insertAll_concat, keys_insert]
    by_cases h : e.1 ∈ (empty.insertAll entries).keys
    · rwa [if_pos h]
    · rw [if_neg h]
      refine List.nodup_append.mpr ⟨ih, by simp, ?_⟩
      intro key hkey other hother heq
      rw [List.mem_singleton] at hother
      exact h (hother ▸ heq ▸ hkey)

/-- An insertion adds an entry, unless its name is there already. -/
theorem size_insert (r : NamedValues) (name : String) (v : Value) :
    (r.insert name v).size = if name ∈ r.keys then r.size else r.size + 1 := by
  have hkeys : ∀ r : NamedValues, r.size = r.keys.length := by
    intro r
    unfold size keys
    rw [List.length_map]
  rw [hkeys, hkeys, keys_insert]
  split
  · rfl
  · rw [List.length_append, List.length_singleton]

/-- There are at most as many entries as insertions. -/
theorem size_insertAll_le (entries : List (String × Value)) :
    (empty.insertAll entries).size ≤ entries.length := by
  induction entries using List.reverseRecOn with
  | nil => exact Nat.le_refl 0
  | append_singleton entries e ih =>
    rw [insertAll_concat, size_insert, List.length_append, List.length_singleton]
    split
    · omega
    · omega

/-- Distinct names get one entry each, in the order of insertion. -/
theorem entries_insertAll_of_nodup {entries : List (String × Value)}
    (h : (entries.map (·.1)).Nodup) : (empty.insertAll entries).entries = entries := by
  induction entries using List.reverseRecOn with
  | nil => rfl
  | append_singleton entries e ih =>
    rw [List.map_append, List.nodup_append] at h
    obtain ⟨hfirst, -, hnew⟩ := h
    have hentries := ih hfirst
    have hname : e.1 ∉ entries.map (·.1) := fun hc => hnew e.1 hc e.1 (by simp) rfl
    rw [insertAll_concat]
    unfold insert
    dsimp only
    rw [hentries, insertEntry_of_notMem hname]

/-- There are as many entries as insertions exactly if the names are distinct. -/
theorem size_insertAll_eq_iff (entries : List (String × Value)) :
    (empty.insertAll entries).size = entries.length ↔ (entries.map (·.1)).Nodup := by
  constructor
  · intro h
    induction entries using List.reverseRecOn with
    | nil => exact List.nodup_nil
    | append_singleton entries e ih =>
      have hle := size_insertAll_le entries
      rw [insertAll_concat, size_insert, List.length_append, List.length_singleton] at h
      by_cases hmem : e.1 ∈ (empty.insertAll entries).keys
      · rw [if_pos hmem] at h
        omega
      · rw [if_neg hmem] at h
        rw [keys_insertAll, List.mem_eraseDups] at hmem
        rw [List.map_append, List.nodup_append]
        refine ⟨ih (by omega), by simp, ?_⟩
        intro key hkey other hother heq
        obtain rfl := List.mem_singleton.mp hother
        rw [heq] at hkey
        exact hmem hkey
  · intro h
    unfold size
    rw [entries_insertAll_of_nodup h]

end RollupInput.NamedValues
