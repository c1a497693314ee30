import Mathlib.Order.Basic
import Mathlib.Data.String.Basic
import RollupInput.FileTree
import RollupInput.Proofs.Lookup
import RollupInput.Proofs.Text.Blanks

/-!
# Sorted trees

Sorting a tree puts the entries of every directory in the order of their names, each name once, and
changes nothing else: what names lead to in the sorted tree is what they lead to in the tree, sorted.
A path that is continued by the name of an entry leads to an entry of that name.
-/

namespace RollupInput.FileTree

/-- Whether a text can name an entry of a directory. -/
structure IsEntryName (name : String) : Prop where
  /-- It is not empty. -/
  nonempty : name ≠ ""
  /-- It is not what stays in a directory. -/
  ne_here : name ≠ "."
  /-- It is not what leads out of a directory. -/
  ne_above : name ≠ ".."
  /-- It has no slash. -/
  noSlash : '/' ∉ name.toList

instance (name : String) : Decidable (IsEntryName name) :=
  decidable_of_iff (name ≠ "" ∧ name ≠ "." ∧ name ≠ ".." ∧ '/' ∉ name.toList)
    ⟨fun h => ⟨h.1, h.2.1, h.2.2.1, h.2.2.2⟩,
      fun h => ⟨h.nonempty, h.ne_here, h.ne_above, h.noSlash⟩⟩

/-- Whether all names that lead somewhere in a tree can name an entry. -/
def HasEntryNames (tree : FileTree) : Prop :=
  ∀ names, (tree.at? names).isSome → ∀ name ∈ names, IsEntryName name

/-- Whether the entries of every directory of a tree are in the order of their names. -/
def IsSorted (tree : FileTree) : Prop :=
  ∀ names entries, tree.at? names = some (.directory entries) →
    (entries.map Prod.fst).Pairwise (· < ·)

/-! ## Paths -/

/-- A path that is continued by a name without slashes is the path, perhaps with a slash, and the
name. -/
theorem parts_join {name : String} (h : IsEntryName name) (path : String) :
    ∃ front, FilePath.parts (FilePath.join path name) = front ++ [name] := by
  have hname : (Text.cutWhere (· == '/') name.toList).map String.ofList = [name] := by
    rw [Text.cutWhere_of_forall fun c hc => ?_, List.map_singleton, String.ofList_toList]
    exact beq_eq_false_iff_ne.mpr fun heq => h.noSlash (heq ▸ hc)
  have hrelative : ¬FilePath.isAbsolute name = true := by
    intro habsolute
    exact h.noSlash (List.mem_of_head? (beq_iff_eq.mp habsolute))
  have hslash : ∀ front : List Char,
      (Text.cutWhere (· == '/') (front ++ '/' :: name.toList)).map String.ofList =
        (Text.cutWhere (· == '/') front).map String.ofList ++ [name] := by
    intro front
    have hcut := @Text.cutWhere_append_cons (· == '/') '/' rfl front name.toList
    rw [hcut, List.map_append, hname]
  unfold FilePath.join
  rw [if_neg hrelative]
  by_cases hend : (path.isEmpty || path.toList.getLast? == some '/') = true
  · rw [if_pos hend, FilePath.parts, String.toList_append]
    rcases Bool.or_eq_true_iff.mp hend with hempty | hlast
    · refine ⟨[], ?_⟩
      rw [String.isEmpty_iff.mp hempty]
      exact hname
    · obtain ⟨front, hfront⟩ := List.getLast?_eq_some_iff.mp (beq_iff_eq.mp hlast)
      rw [hfront, List.append_assoc, List.singleton_append, hslash]
      exact ⟨_, rfl⟩
  · rw [if_neg hend, FilePath.parts, String.toList_append, String.toList_append, List.append_assoc]
    exact ⟨_, hslash path.toList⟩

/-- A path that is continued by the name of an entry leads to an entry of that name. -/
theorem fileName?_join {name : String} (h : IsEntryName name) (path : String) :
    FilePath.fileName? (FilePath.join path name) = some name := by
  obtain ⟨front, hparts⟩ := parts_join h path
  have hkept : (name != "" && name != ".") = true :=
    Bool.and_eq_true_iff.mpr ⟨bne_iff_ne.mpr h.nonempty, bne_iff_ne.mpr h.ne_here⟩
  have habove : ¬(name == "..") = true := fun heq => h.ne_above (beq_iff_eq.mp heq)
  unfold FilePath.fileName?
  rw [hparts, List.filter_append, List.filter_singleton, hkept, cond_true, List.getLast?_concat]
  dsimp only
  rw [if_neg habove]

/-! ## Sorting -/

/-- The names after an entry is put in are its own and those before. -/
theorem mem_insertEntry_iff {name key : String} {tree : FileTree}
    {entries : List (String × FileTree)} :
    key ∈ (insertEntry name tree entries).map Prod.fst ↔ key = name ∨ key ∈ entries.map Prod.fst := by
  induction entries with
  | nil => simp only [insertEntry, List.map_cons, List.map_nil, List.mem_singleton, List.not_mem_nil,
      or_false]
  | cons e rest ih =>
    obtain ⟨other, old⟩ := e
    rw [insertEntry]
    by_cases hsame : name = other
    · rw [if_pos hsame, List.map_cons, List.map_cons, List.mem_cons, List.mem_cons, hsame,
        ← or_assoc, or_self]
    · rw [if_neg hsame]
      by_cases hlt : name < other
      · rw [if_pos hlt, List.map_cons, List.mem_cons]
      · rw [if_neg hlt, List.map_cons, List.mem_cons, ih, List.map_cons, List.mem_cons,
          or_left_comm]

/-- Putting an entry in keeps the order of the names. -/
theorem pairwise_insertEntry {name : String} {tree : FileTree} {entries : List (String × FileTree)}
    (h : (entries.map Prod.fst).Pairwise (· < ·)) :
    ((insertEntry name tree entries).map Prod.fst).Pairwise (· < ·) := by
  induction entries with
  | nil => exact List.pairwise_singleton _ _
  | cons e rest ih =>
    obtain ⟨other, old⟩ := e
    obtain ⟨hfirst, hrest⟩ := List.pairwise_cons.mp h
    rw [insertEntry]
    by_cases hsame : name = other
    · rw [if_pos hsame, hsame]
      exact h
    · rw [if_neg hsame]
      by_cases hlt : name < other
      · rw [if_pos hlt]
        refine List.pairwise_cons.mpr ⟨fun key hkey => ?_, h⟩
        rcases List.mem_cons.mp hkey with rfl | hkey
        · exact hlt
        · exact lt_trans hlt (hfirst key hkey)
      · rw [if_neg hlt]
        refine List.pairwise_cons.mpr ⟨fun key hkey => ?_, ih hrest⟩
        rcases mem_insertEntry_iff.mp hkey with rfl | hkey
        · exact lt_of_le_of_ne (not_lt.mp hlt) (Ne.symm hsame)
        · exact hfirst key hkey

/-- Sorted entries are in the order of their names. -/
theorem pairwise_sortedEntries (entries : List (String × FileTree)) :
    ((sortedEntries entries).map Prod.fst).Pairwise (· < ·) := by
  induction entries with
  | nil => exact List.Pairwise.nil
  | cons e rest ih =>
    rw [sortedEntries]
    exact pairwise_insertEntry ih

/-- Entries are put in by name. -/
theorem insertsByName_insertEntry : InsertsByName insertEntry :=
  ⟨fun _ _ => rfl, fun _ _ _ _ _ => rfl⟩

/-- An entry is found sorted. -/
theorem lookup_sortedEntries (key : String) (entries : List (String × FileTree)) :
    (sortedEntries entries).lookup key = (entries.lookup key).map sorted := by
  induction entries with
  | nil => rfl
  | cons e rest ih =>
    obtain ⟨name, tree⟩ := e
    rw [sortedEntries, insertsByName_insertEntry.lookup_eq_ite, lookup_cons_eq_ite, ih]
    by_cases h : key = name
    · rw [if_pos h, if_pos h, Option.map_some]
    · rw [if_neg h, if_neg h]

/-- Names lead in the sorted tree to what they lead to in the tree, sorted. -/
theorem at?_sorted (tree : FileTree) (names : List String) :
    tree.sorted.at? names = (tree.at? names).map sorted := by
  induction names generalizing tree with
  | nil => rw [at?, at?, Option.map_some]
  | cons name rest ih =>
    cases tree with
    | file content => rfl
    | device content => rfl
    | directory entries =>
      rw [sorted, at?, at?, lookup_sortedEntries]
      cases entries.lookup name with
      | none => rfl
      | some inner => exact ih inner

/-- A sorted tree is sorted. -/
theorem isSorted_sorted (tree : FileTree) : tree.sorted.IsSorted := by
  intro names entries h
  rw [at?_sorted] at h
  obtain ⟨found, -, hfound⟩ := Option.map_eq_some_iff.mp h
  cases found with
  | file content => cases hfound
  | device content => cases hfound
  | directory others =>
    rw [sorted] at hfound
    cases hfound
    exact pairwise_sortedEntries others

/-- A directory is a tree with names of entries if its entries are such trees under such names. -/
theorem hasEntryNames_directory {entries : List (String × FileTree)}
    (h : ∀ e ∈ entries, IsEntryName e.1 ∧ e.2.HasEntryNames) :
    (FileTree.directory entries).HasEntryNames := by
  intro names hnames
  cases names with
  | nil => exact List.forall_mem_nil _
  | cons name rest =>
    rw [at?] at hnames
    cases hlookup : entries.lookup name with
    | none =>
      rw [hlookup] at hnames
      cases hnames
    | some inner =>
      rw [hlookup] at hnames
      obtain ⟨hname, hinner⟩ := h _ (mem_of_lookup hlookup)
      exact List.forall_mem_cons.mpr ⟨hname, hinner rest hnames⟩

/-- A file has nothing below it. -/
theorem hasEntryNames_file (content : List UInt8) : (FileTree.file content).HasEntryNames := by
  intro names hnames
  cases names with
  | nil => exact List.forall_mem_nil _
  | cons name rest => cases hnames

/-- Sorting keeps the names. -/
theorem HasEntryNames.sorted {tree : FileTree} (h : tree.HasEntryNames) :
    tree.sorted.HasEntryNames := by
  intro names hnames
  rw [at?_sorted, Option.isSome_map] at hnames
  exact h names hnames

end RollupInput.FileTree
