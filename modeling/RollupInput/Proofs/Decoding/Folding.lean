import RollupInput.Proofs.Decoding.Outcome
import RollupInput.Proofs.NamedValues

/-!
# Folding pieces

The result of a decode is told by the names of its pieces: they are its keys, in the order in
which they first come, without the name of the target, and the last piece of a name gives the
value. The fold of the last stage is such a result of its pieces.
-/

namespace RollupInput.Decoding

open Abi

/-- Whether a result is told by the names of some pieces, apart from the name of the target. -/
structure IsFoldOf (target : Option String) (pieces : List Piece) (result : NamedValues) :
    Prop where
  /-- The keys are the names other than the target's. -/
  contains_iff : ∀ key,
    result.contains key = true ↔ target ≠ some key ∧ ∃ p ∈ pieces, p.name = key
  /-- The keys stand in the order in which they first come as names. -/
  keys_eq :
    result.keys = ((pieces.map Piece.name).filter fun name => target != some name).eraseDups
  /-- No key stands twice. -/
  keys_nodup : result.keys.Nodup
  /-- The last piece of a name gives its value. -/
  get?_eq : ∀ key, target ≠ some key →
    result.get? key = (pieces.reverse.find? fun p => p.name == key).map Piece.value

/-- The names of the kept pieces are the names other than the target's. -/
theorem map_name_kept (target : Option String) (pieces : List Piece) :
    (kept target pieces).map Piece.name =
      (pieces.map Piece.name).filter fun name => target != some name := by
  rw [kept, List.filter_map]
  rfl

/-- Looking a name up among the values of pieces finds the first piece of the name. -/
theorem lookup_map_value (pieces : List Piece) (key : String) :
    (pieces.map fun p => (p.name, p.value)).lookup key =
      (pieces.find? fun p => p.name == key).map Piece.value := by
  induction pieces with
  | nil => rfl
  | cons p rest ih =>
    rw [List.map_cons, lookup_cons_eq_ite, ih]
    by_cases h : key = p.name
    · rw [if_pos h, List.find?_cons_of_pos (by simp [h])]
      rfl
    · rw [if_neg h, List.find?_cons_of_neg (by simpa using fun hc => h hc.symm)]

/-- Keeping pieces does not change which piece of another name than the target's comes last. -/
theorem find?_reverse_kept {target : Option String} {key : String} (h : target ≠ some key)
    (pieces : List Piece) :
    ((kept target pieces).reverse.find? fun p => p.name == key) =
      pieces.reverse.find? fun p => p.name == key := by
  rw [kept, ← List.filter_reverse]
  induction pieces.reverse with
  | nil => rfl
  | cons p rest ih =>
    by_cases hp : (target != some p.name) = true
    · rw [List.filter_cons, if_pos hp, List.find?_cons, List.find?_cons, ih]
    · have hname : (p.name == key) = false := by
        rw [beq_eq_false_iff_ne]
        rintro rfl
        exact hp (bne_iff_ne.mpr h)
      rw [List.filter_cons, if_neg hp, List.find?_cons, hname, ih]

/-- The fold of pieces is told by their names. -/
theorem isFoldOf_fold (target : Option String) (pieces : List Piece) :
    IsFoldOf target pieces (fold target pieces) := by
  have hnames : ((kept target pieces).map fun p => (p.name, p.value)).map (·.1) =
      (pieces.map Piece.name).filter fun name => target != some name := by
    rw [List.map_map, ← map_name_kept]
    rfl
  have hkeys : (fold target pieces).keys =
      ((pieces.map Piece.name).filter fun name => target != some name).eraseDups := by
    rw [fold, NamedValues.keys_insertAll, hnames]
  refine ⟨?_, hkeys, NamedValues.nodup_keys_insertAll _, ?_⟩
  · intro key
    rw [NamedValues.contains_iff_mem_keys, hkeys, List.mem_eraseDups, List.mem_filter, List.mem_map,
      bne_iff_ne]
    exact And.comm
  · intro key hkey
    rw [fold, NamedValues.get?_insertAll, ← List.map_reverse, lookup_map_value,
      find?_reverse_kept hkey]

end RollupInput.Decoding
