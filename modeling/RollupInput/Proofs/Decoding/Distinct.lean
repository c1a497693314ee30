import RollupInput.Proofs.Decoding.Folding

/-!
# Pieces with entries of their own

A resolved decode keeps the value of every piece besides the target, one entry each, exactly if the
names of these pieces are distinct and none of them is the name of the target. Pieces of one name
share an entry, which the last of them gives its value, and no entry has the name of the target.
-/

namespace RollupInput.Decoding

open Abi

/-- The pieces besides the one that is consumed as the target, the first of its name. -/
def besides (target : Option String) (pieces : List Piece) : List Piece :=
  pieces.eraseP fun p => target == some p.name

/-- Whether every piece has an entry of its own in a result. -/
structure HaveOwnEntries (pieces : List Piece) (result : NamedValues) : Prop where
  /-- No two pieces have one name. -/
  nodup : (pieces.map Piece.name).Nodup
  /-- Each piece finds its value under its name. -/
  get?_eq : ∀ p ∈ pieces, result.get? p.name = some p.value
  /-- There is one entry per piece. -/
  size_eq : result.size = pieces.length

/-- Whether pieces have distinct names, none of which is the name of the target. -/
def AreDistinct (target : Option String) (pieces : List Piece) : Prop :=
  (pieces.map Piece.name).Nodup ∧ ∀ p ∈ pieces, target ≠ some p.name

/-- The target is not kept, so it can be left out before. -/
theorem kept_besides (target : Option String) (pieces : List Piece) :
    kept target (besides target pieces) = kept target pieces := by
  unfold kept besides
  induction pieces with
  | nil => rfl
  | cons p rest ih =>
    by_cases h : target = some p.name
    · rw [List.eraseP_cons_of_pos (by simp [h]), List.filter_cons_of_neg (by simp [h])]
    · rw [List.eraseP_cons_of_neg (by simp [h]), List.filter_cons_of_pos (by simp [h]),
        List.filter_cons_of_pos (by simp [h]), ih]

/-- Pieces of other names than the target's are all kept. -/
theorem kept_eq_self_iff (target : Option String) (pieces : List Piece) :
    kept target pieces = pieces ↔ ∀ p ∈ pieces, target ≠ some p.name := by
  unfold kept
  rw [List.filter_eq_self]
  constructor
  · intro h p hp
    exact bne_iff_ne.mp (h p hp)
  · intro h p hp
    exact bne_iff_ne.mpr (h p hp)

/-- Without a target the result is that of the entries of all pieces. -/
theorem fold_none (pieces : List Piece) :
    fold none pieces = NamedValues.empty.insertAll (pieces.map fun p => (p.name, p.value)) := by
  have hself : kept none pieces = pieces :=
    (kept_eq_self_iff none pieces).mpr fun p _ h => nomatch h
  rw [fold, hself]

/-- The result has as many entries as there are pieces besides the target exactly if these are
distinct. -/
theorem size_fold_eq_iff (target : Option String) (pieces : List Piece) :
    (fold target pieces).size = (besides target pieces).length ↔
      AreDistinct target (besides target pieces) := by
  unfold fold AreDistinct
  rw [← kept_besides]
  generalize besides target pieces = others
  have hnames : (((kept target others).map fun p => (p.name, p.value)).map (·.1)) =
      (kept target others).map Piece.name := by
    rw [List.map_map]
    rfl
  have hsize := NamedValues.size_insertAll_eq_iff
    ((kept target others).map fun p => (p.name, p.value))
  rw [hnames, List.length_map] at hsize
  constructor
  · intro h
    -- Pieces are lost by the name of the target or by replacement: equal sizes rule out both.
    have hinserted := NamedValues.size_insertAll_le
      ((kept target others).map fun p => (p.name, p.value))
    have hkept : (kept target others).length ≤ others.length := List.length_filter_le ..
    rw [List.length_map] at hinserted
    have hlength : (kept target others).length = others.length := by omega
    have hself : kept target others = others := List.filter_sublist.eq_of_length hlength
    rw [hself] at hsize h
    exact ⟨hsize.mp h, (kept_eq_self_iff target others).mp hself⟩
  · rintro ⟨hnodup, hother⟩
    have hself := (kept_eq_self_iff target others).mpr hother
    rw [hself] at hsize ⊢
    exact hsize.mpr hnodup

/-- Distinct pieces besides the target stand in the result as they are. -/
theorem entries_fold {target : Option String} {pieces : List Piece}
    (h : AreDistinct target (besides target pieces)) :
    (fold target pieces).entries =
      (besides target pieces).map fun p => (p.name, p.value) := by
  have hself := (kept_eq_self_iff target _).mpr h.2
  unfold fold
  rw [← kept_besides, hself]
  refine NamedValues.entries_insertAll_of_nodup ?_
  rw [List.map_map]
  exact h.1

/-- Among pieces of distinct names, each is found by its name. -/
theorem find?_name_eq_some {pieces : List Piece} (h : (pieces.map Piece.name).Nodup) {p : Piece}
    (hp : p ∈ pieces) : (pieces.find? fun q => q.name == p.name) = some p := by
  induction pieces with
  | nil => cases hp
  | cons q rest ih =>
    rw [List.map_cons, List.nodup_cons] at h
    rcases List.mem_cons.mp hp with rfl | hp
    · rw [List.find?_cons_of_pos (by simp)]
    · have hname : (q.name == p.name) = false := by
        rw [beq_eq_false_iff_ne]
        intro hc
        exact h.1 (hc ▸ List.mem_map_of_mem hp)
      rw [List.find?_cons, hname]
      exact ih h.2 hp

/-- The pieces besides the target have entries of their own exactly if they are distinct. -/
theorem haveOwnEntries_fold_iff (target : Option String) (pieces : List Piece) :
    HaveOwnEntries (besides target pieces) (fold target pieces) ↔
      AreDistinct target (besides target pieces) := by
  constructor
  · intro h
    exact (size_fold_eq_iff target pieces).mp h.size_eq
  · intro h
    refine ⟨h.1, ?_, (size_fold_eq_iff target pieces).mpr h⟩
    intro p hp
    unfold NamedValues.get?
    rw [entries_fold h, lookup_map_value, find?_name_eq_some h.1 hp]
    rfl

/-- A resolved decode by parameter declarations has folded its pieces. -/
theorem result_of_isResolved [Memory]
    {spec : Specification} {mode : ParamsMode} {payload : List UInt8}
    (hmode : spec.mode = .params mode) (h : (run spec payload).isResolved = true) :
    (run spec payload).result = fold mode.target (run spec payload).pieces := by
  obtain ⟨pieces, more, -, -, hrun⟩ := run_of_isResolved hmode h
  rw [hrun]
  rfl

/-- What a resolved decode keeps of its pieces. Each name besides the target's has one entry, which
holds the value of the last piece of the name. Every piece besides the target has an entry of its
own, so that no value is lost, exactly if the names of these pieces are distinct and none of them is
the target's; already the number of entries tells. The entries are then the pieces in order. -/
theorem run_keeps_values [Memory] {spec : Specification} {mode : ParamsMode} {payload : List UInt8}
    (hmode : spec.mode = .params mode) (hresolved : (run spec payload).isResolved = true) :
    IsFoldOf mode.target (run spec payload).pieces (run spec payload).result ∧
    (HaveOwnEntries (besides mode.target (run spec payload).pieces) (run spec payload).result ↔
      AreDistinct mode.target (besides mode.target (run spec payload).pieces)) ∧
    ((run spec payload).result.size = (besides mode.target (run spec payload).pieces).length ↔
      AreDistinct mode.target (besides mode.target (run spec payload).pieces)) ∧
    (AreDistinct mode.target (besides mode.target (run spec payload).pieces) →
      (run spec payload).result.entries =
        (besides mode.target (run spec payload).pieces).map fun p => (p.name, p.value)) := by
  rw [result_of_isResolved hmode hresolved]
  refine ⟨isFoldOf_fold .., haveOwnEntries_fold_iff .., size_fold_eq_iff .., ?_⟩
  intro h
  exact entries_fold h

/-- The first byte and the second, under two names. -/
def twoBytes (first second : String) : ParamsMode :=
  ⟨[], some [⟨0, some 1, some first, none, none⟩, ⟨1, some 2, some second, none, none⟩], none⟩

attribute [local instance] Memory.usual

/-- Under different names both bytes are kept. -/
theorem twoBytes_kept :
    (run (bare (twoBytes "a" "b")) [1, 2]).isResolved = true ∧
    HaveOwnEntries (run (bare (twoBytes "a" "b")) [1, 2]).pieces
      (run (bare (twoBytes "a" "b")) [1, 2]).result := by
  have hresolved : (run (bare (twoBytes "a" "b")) [1, 2]).isResolved = true := by decide +kernel
  have hkeep := (run_keeps_values rfl hresolved).2.1
  refine ⟨hresolved, hkeep.mpr ⟨by decide +kernel, ?_⟩⟩
  rintro p - ⟨⟩

/-- A number that has the name of the bytes from which it is unwrapped. -/
def sameName : ParamsMode := ⟨["uint256 a"], some [⟨0, none, some "a", none, none⟩], some "a"⟩

/-- Values are lost: of two bytes under one name only the second is kept. Distinct names are not
enough either: a parameter that has the name of the target is not kept. -/
theorem not_forall_haveOwnEntries :
    (¬∀ spec mode payload, spec.mode = .params mode → (run spec payload).isResolved = true →
      HaveOwnEntries (besides mode.target (run spec payload).pieces)
        (run spec payload).result) ∧
    ¬∀ spec mode payload, spec.mode = .params mode → (run spec payload).isResolved = true →
      ((besides mode.target (run spec payload).pieces).map Piece.name).Nodup →
      HaveOwnEntries (besides mode.target (run spec payload).pieces)
        (run spec payload).result := by
  constructor
  · intro hall
    have hnodup := (hall (bare (twoBytes "a" "a")) _ [1, 2] rfl (by decide +kernel)).nodup
    exact absurd hnodup (by decide +kernel)
  · intro hall
    have hsize := (hall (bare sameName) _ (List.replicate 32 0) rfl (by decide +kernel)
      (by decide +kernel)).size_eq
    exact absurd hsize (by decide +kernel)

end RollupInput.Decoding
