import RollupInput.Catalog

/-!
# Catalogs put together

What some catalogs come to together are the specifications and the errors of all of them, in order,
and the sum of their counts up to the greatest count that is kept. Merging two catalogs is this for
two, and so it does not matter how the merges of many are grouped: a sum that is cut off on the way
is cut off in the end.
-/

namespace RollupInput.Catalog

/-- Whether a catalog has a count that can be kept. -/
def IsCounted (c : Catalog) : Prop := c.scannedFiles ≤ maxCount

/-- The sum of the counts of some catalogs. -/
def countAll : List Catalog → Nat
  | [] => 0
  | c :: rest => c.scannedFiles + countAll rest

/-- What some catalogs come to together. -/
def joined (cs : List Catalog) : Catalog :=
  ⟨cs.flatMap specs, min (countAll cs) maxCount, cs.flatMap errors⟩

/-- A way in which catalogs are merged with one another. -/
inductive Grouping where
  /-- A catalog as it is. -/
  | single (c : Catalog)
  /-- Two groups, the second behind the first. -/
  | merged (left right : Grouping)

namespace Grouping

/-- The catalogs that are merged, in order. -/
def catalogs : Grouping → List Catalog
  | .single c => [c]
  | .merged left right => left.catalogs ++ right.catalogs

/-- What they are merged to. -/
def outcome : Grouping → Catalog
  | .single c => c
  | .merged left right => left.outcome.merge right.outcome

end Grouping

/-- Merging three catalogs, the last two or the first two first. -/
theorem merge_assoc (a b c : Catalog) : (a.merge b).merge c = a.merge (b.merge c) := by
  have hcount : min (min (a.scannedFiles + b.scannedFiles) maxCount + c.scannedFiles) maxCount =
      min (a.scannedFiles + min (b.scannedFiles + c.scannedFiles) maxCount) maxCount := by omega
  unfold merge
  rw [hcount, List.append_assoc, List.append_assoc]

/-- The catalog of nothing in front of another. -/
theorem empty_merge {c : Catalog} (h : c.IsCounted) : empty.merge c = c := by
  have hcount : min (0 + c.scannedFiles) maxCount = c.scannedFiles := by
    rw [Nat.zero_add]
    exact Nat.min_eq_left h
  unfold merge empty
  rw [hcount, List.nil_append, List.nil_append]

/-- The catalog of nothing behind another. -/
theorem merge_empty {c : Catalog} (h : c.IsCounted) : c.merge empty = c := by
  have hcount : min (c.scannedFiles + 0) maxCount = c.scannedFiles := Nat.min_eq_left h
  unfold merge empty
  rw [hcount, List.append_nil, List.append_nil]

/-- The counts of catalogs and more catalogs are added. -/
theorem countAll_append (cs ds : List Catalog) :
    countAll (cs ++ ds) = countAll cs + countAll ds := by
  induction cs with
  | nil => rw [List.nil_append, countAll, Nat.zero_add]
  | cons c rest ih => rw [List.cons_append, countAll, countAll, ih, Nat.add_assoc]

/-- No catalogs come to nothing. -/
theorem joined_nil : joined [] = empty := by
  unfold joined empty
  rw [countAll, Nat.zero_min]
  rfl

/-- One catalog comes to itself. -/
theorem joined_singleton {c : Catalog} (h : c.IsCounted) : joined [c] = c := by
  have hcount : min (countAll [c]) maxCount = c.scannedFiles := Nat.min_eq_left h
  unfold joined
  rw [hcount, List.flatMap_singleton, List.flatMap_singleton]

/-- What catalogs come to has a count that can be kept. -/
theorem isCounted_joined (cs : List Catalog) : (joined cs).IsCounted := Nat.min_le_right _ _

/-- What catalogs come to is what those in front come to, merged with what the others come to. -/
theorem joined_append (cs ds : List Catalog) : joined (cs ++ ds) = (joined cs).merge (joined ds) := by
  have hcount : min (countAll cs + countAll ds) maxCount =
      min (min (countAll cs) maxCount + min (countAll ds) maxCount) maxCount := by omega
  unfold joined merge
  rw [countAll_append, hcount, List.flatMap_append, List.flatMap_append]

/-- One more catalog is merged with what those in front come to, whatever its count. -/
theorem joined_concat (cs : List Catalog) (c : Catalog) :
    joined (cs ++ [c]) = (joined cs).merge c := by
  have hcount : min (countAll cs + c.scannedFiles) maxCount =
      min (min (countAll cs) maxCount + c.scannedFiles) maxCount := by omega
  have hone : countAll [c] = c.scannedFiles := rfl
  unfold joined merge
  rw [countAll_append, hone, hcount, List.flatMap_append, List.flatMap_append,
    List.flatMap_singleton, List.flatMap_singleton]

/-- Steps that each merge something with what those in front come to, put this together. -/
theorem foldl_eq_joined {α : Type} {next : Catalog → α → Catalog} {added : α → Catalog}
    (h : ∀ c a, c.IsCounted → next c a = c.merge (added a)) (as : List α) :
    as.foldl next empty = joined (as.map added) := by
  have hfrom : ∀ cs, as.foldl next (joined cs) = joined (cs ++ as.map added) := by
    induction as with
    | nil =>
      intro cs
      rw [List.foldl_nil, List.map_nil, List.append_nil]
    | cons a rest ih =>
      intro cs
      rw [List.foldl_cons, h _ a (isCounted_joined cs), ← joined_concat, ih, List.append_assoc,
        List.map_cons, List.singleton_append]
  have hall := hfrom []
  rwa [joined_nil, List.nil_append] at hall

/-- Catalogs that are merged however they are grouped come to the same. -/
theorem Grouping.outcome_eq_joined (g : Grouping) (h : ∀ c ∈ g.catalogs, c.IsCounted) :
    g.outcome = joined g.catalogs := by
  induction g with
  | single c => exact (joined_singleton (h c (List.mem_singleton.mpr rfl))).symm
  | merged left right ihleft ihright =>
    rw [outcome, catalogs, joined_append, ihleft fun c hc => h c (List.mem_append_left _ hc),
      ihright fun c hc => h c (List.mem_append_right _ hc)]

end RollupInput.Catalog
