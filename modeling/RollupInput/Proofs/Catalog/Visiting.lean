import Mathlib.Data.List.Perm.Basic
import RollupInput.Catalog
import RollupInput.Proofs.FileTree

/-!
# The files that a scan reads

A scan reads the files of a tree whose names have the extension and are below no entry that is left
out. The names that lead from the root to a file tell where it comes: the files are in the order of
their names, compared name by name from the root down, which is the order of a walk that visits the
entries of a directory by name and all that is below one before the next.
-/

namespace RollupInput.Catalog

open FileTree

/-- The path that leads on from a path along names. -/
def pathAlong (path : String) (names : List String) : String := names.foldl FilePath.join path

/-- A file by the path that leads to it from the root of its tree. -/
def located (path : String) (file : List String × List UInt8) : String × List UInt8 :=
  (pathAlong path file.1, file.2)

/-- The names of all entries on a way from a path down. That of the path itself is among them, if it
has one. -/
def namesDown (path : String) (names : List String) : List String :=
  (FilePath.fileName? path).toList ++ names

/-- Whether names lead to a file that a scan of a tree below a path has to read. -/
structure IsVisited (path : String) (tree : FileTree) (names : List String) (content : List UInt8) :
    Prop where
  /-- They lead to the file. -/
  file : tree.at? names = some (.file content)
  /-- No entry on the way is one that is left out. -/
  kept : ∀ name ∈ namesDown path names, name ∉ ignoredNames
  /-- The last of them has the extension. -/
  extension : (namesDown path names).getLast?.bind FilePath.extensionOf? = some "json"

/-- Whether names lead to a file that a scan of the entries of a directory has to read. -/
def IsVisitedBelow (path : String) (entries : List (String × FileTree)) (names : List String)
    (content : List UInt8) : Prop :=
  ∃ name rest inner, names = name :: rest ∧ entries.lookup name = some inner ∧
    IsVisited (FilePath.join path name) inner rest content

/-- Whether files are those that are wanted, in order. -/
structure ListsInOrder (wanted : List String → List UInt8 → Prop)
    (files : List (List String × List UInt8)) : Prop where
  /-- They are the files that are wanted. -/
  mem_iff : ∀ names content, (names, content) ∈ files ↔ wanted names content
  /-- They are in the order of the names that lead to them, each once. -/
  inOrder : files.Pairwise fun a b => a.1 < b.1

variable {path : String} {names : List String} {content : List UInt8}

/-! ## One entry -/

/-- No entry on a way is left out if that of the path is not, nor any that comes behind. -/
theorem forall_namesDown_iff : (∀ name ∈ namesDown path names, name ∉ ignoredNames) ↔
    isIgnored path = false ∧ ∀ name ∈ names, name ∉ ignoredNames := by
  have hpath : (∀ name ∈ (FilePath.fileName? path).toList, name ∉ ignoredNames) ↔
      isIgnored path = false := by
    unfold isIgnored
    cases FilePath.fileName? path with
    | none => simp
    | some name => simp
  rw [namesDown, List.forall_mem_append, hpath]

/-- On the way from an entry of a directory, its name comes first. -/
theorem namesDown_join {name : String} (h : IsEntryName name) (path : String) (names : List String) :
    namesDown (FilePath.join path name) names = name :: names := by
  rw [namesDown, fileName?_join h]
  rfl

/-- A way that has names ends with the last of them. -/
theorem getLast?_namesDown_cons (path name : String) (names : List String) :
    (namesDown path (name :: names)).getLast? = (name :: names).getLast? :=
  List.getLast?_append_of_ne_nil _ (List.cons_ne_nil name names)

/-- A way without names ends with the name of the path. -/
theorem getLast?_namesDown_nil (path : String) :
    (namesDown path []).getLast? = FilePath.fileName? path := by
  rw [namesDown, List.append_nil]
  cases FilePath.fileName? path <;> rfl

/-- A file is read exactly if its own name says so. -/
theorem isVisited_file_iff {given : List UInt8} :
    IsVisited path (.file given) names content ↔
      (names = [] ∧ content = given) ∧ isIgnored path = false ∧ isJsonFile path = true := by
  constructor
  · rintro ⟨hfile, hkept, hext⟩
    cases names with
    | cons name rest => cases hfile
    | nil =>
      cases hfile
      rw [getLast?_namesDown_nil] at hext
      exact ⟨⟨rfl, rfl⟩, (forall_namesDown_iff.mp hkept).1, beq_iff_eq.mpr hext⟩
  · rintro ⟨⟨rfl, rfl⟩, hkept, hext⟩
    refine ⟨rfl, forall_namesDown_iff.mpr ⟨hkept, List.forall_mem_nil _⟩, ?_⟩
    rw [getLast?_namesDown_nil]
    exact beq_iff_eq.mp hext

/-- Below a device nothing is read. -/
theorem not_isVisited_device {given : List UInt8} : ¬IsVisited path (.device given) names content := by
  rintro ⟨hfile, -, -⟩
  cases names <;> cases hfile

/-- Below a directory that is not left out, what is below its entries is read. -/
theorem isVisited_directory_iff {entries : List (String × FileTree)}
    (hproper : (FileTree.directory entries).HasEntryNames) :
    IsVisited path (.directory entries) names content ↔
      isIgnored path = false ∧ IsVisitedBelow path entries names content := by
  constructor
  · rintro ⟨hfile, hkept, hext⟩
    cases names with
    | nil => cases hfile
    | cons name rest =>
      obtain ⟨hpath, hnames⟩ := forall_namesDown_iff.mp hkept
      obtain ⟨inner, hinner, hrest⟩ := Option.bind_eq_some_iff.mp hfile
      have hname : IsEntryName name := hproper _ (Option.isSome_of_eq_some hfile) name List.mem_cons_self
      rw [getLast?_namesDown_cons, ← namesDown_join hname path] at hext
      rw [← namesDown_join hname path] at hnames
      exact ⟨hpath, name, rest, inner, rfl, hinner, hrest, hnames, hext⟩
  · rintro ⟨hpath, name, rest, inner, rfl, hinner, hfile, hkept, hext⟩
    have hat : (FileTree.directory entries).at? (name :: rest) = some (.file content) :=
      Option.bind_eq_some_iff.mpr ⟨inner, hinner, hfile⟩
    have hname : IsEntryName name := hproper _ (Option.isSome_of_eq_some hat) name List.mem_cons_self
    rw [namesDown_join hname] at hkept hext
    refine ⟨hat, forall_namesDown_iff.mpr ⟨hpath, hkept⟩, ?_⟩
    rw [getLast?_namesDown_cons]
    exact hext

/-- An entry behind those of smaller names is found. -/
theorem lookup_cons_of_lt {name key : String} {tree inner : FileTree}
    {rest : List (String × FileTree)} (hless : ∀ other ∈ rest.map Prod.fst, name < other)
    (h : rest.lookup key = some inner) : ((name, tree) :: rest).lookup key = some inner := by
  have hne : key ≠ name := (hless key (List.mem_map_of_mem (mem_of_lookup h))).ne'
  rw [lookup_cons_eq_ite, if_neg hne]
  exact h

/-! ## Lists of files -/

namespace ListsInOrder

variable {wanted : List String → List UInt8 → Prop} {files : List (List String × List UInt8)}

/-- Where no file is wanted, none is listed. -/
theorem nil (h : ∀ names content, ¬wanted names content) : ListsInOrder wanted [] :=
  ⟨fun names content => iff_of_false List.not_mem_nil (h names content), List.Pairwise.nil⟩

/-- What is wanted can be said in another way. -/
theorem congr {other : List String → List UInt8 → Prop} (h : ListsInOrder wanted files)
    (hiff : ∀ names content, other names content ↔ wanted names content) :
    ListsInOrder other files :=
  ⟨fun names content => (h.mem_iff names content).trans (hiff names content).symm, h.inOrder⟩

/-- The files that are wanted are listed in one way only. -/
theorem unique {others : List (List String × List UInt8)} (h : ListsInOrder wanted files)
    (h' : ListsInOrder wanted others) : files = others := by
  have hnodup {fs : List (List String × List UInt8)} (hfs : ListsInOrder wanted fs) : fs.Nodup := by
    refine hfs.inOrder.imp fun {a b} hlt heq => ?_
    rw [heq] at hlt
    exact List.lt_irrefl _ hlt
  have hperm : files.Perm others := (List.perm_ext_iff_of_nodup (hnodup h) (hnodup h')).mpr
    fun f => (h.mem_iff f.1 f.2).trans (h'.mem_iff f.1 f.2).symm
  exact hperm.eq_of_pairwise (fun a b _ _ hab hba => absurd hba (List.lt_asymm hab)) h.inOrder
    h'.inOrder

/-- The files below the first entry of a directory come before those below the others. -/
theorem cons {name : String} {tree : FileTree} {rest : List (String × FileTree)}
    {more : List (List String × List UInt8)} (hless : ∀ key ∈ rest.map Prod.fst, name < key)
    (hfirst : ListsInOrder (IsVisited (FilePath.join path name) tree) files)
    (hrest : ListsInOrder (IsVisitedBelow path rest) more) :
    ListsInOrder (IsVisitedBelow path ((name, tree) :: rest))
      ((files.map fun f => (name :: f.1, f.2)) ++ more) := by
  constructor
  · intro names content
    rw [List.mem_append, hrest.mem_iff]
    constructor
    · rintro (hmem | ⟨key, way, inner, rfl, hlookup, hvisited⟩)
      · obtain ⟨f, hf, heq⟩ := List.mem_map.mp hmem
        cases heq
        exact ⟨name, f.1, tree, rfl, List.lookup_cons_self, (hfirst.mem_iff _ _).mp hf⟩
      · exact ⟨key, way, inner, rfl, lookup_cons_of_lt hless hlookup, hvisited⟩
    · rintro ⟨key, way, inner, rfl, hlookup, hvisited⟩
      rw [lookup_cons_eq_ite] at hlookup
      by_cases hkey : key = name
      · rw [if_pos hkey] at hlookup
        cases hlookup
        subst hkey
        exact .inl (List.mem_map.mpr ⟨(way, content), (hfirst.mem_iff _ _).mpr hvisited, rfl⟩)
      · rw [if_neg hkey] at hlookup
        exact .inr ⟨key, way, inner, rfl, hlookup, hvisited⟩
  · refine List.pairwise_append.mpr ⟨List.pairwise_map.mpr ?_, hrest.inOrder, ?_⟩
    · exact hfirst.inOrder.imp fun hlt => List.cons_lt_cons_iff.mpr (.inr ⟨rfl, hlt⟩)
    · intro a ha b hb
      obtain ⟨f, -, rfl⟩ := List.mem_map.mp ha
      obtain ⟨key, way, inner, hb, hlookup, -⟩ := (hrest.mem_iff b.1 b.2).mp hb
      rw [hb]
      have hkey : name < key := hless key (List.mem_map_of_mem (mem_of_lookup hlookup))
      exact List.cons_lt_cons_iff.mpr (.inl hkey)

end ListsInOrder

/-! ## Walks -/

/-- What is below the entries of a sorted tree is sorted and has names of entries. -/
theorem of_lookup {entries : List (String × FileTree)}
    (hsorted : (FileTree.directory entries).IsSorted)
    (hproper : (FileTree.directory entries).HasEntryNames) {name : String} {inner : FileTree}
    (h : entries.lookup name = some inner) : inner.IsSorted ∧ inner.HasEntryNames := by
  have hat : ∀ names, (FileTree.directory entries).at? (name :: names) = inner.at? names := by
    intro names
    rw [at?, h, Option.bind_some]
  constructor
  · intro names others hothers
    exact hsorted (name :: names) others ((hat names).trans hothers)
  · intro names hnames key hkey
    rw [← hat] at hnames
    exact hproper (name :: names) hnames key (List.mem_cons_of_mem name hkey)

mutual

/-- A walk of a sorted tree lists the files that are to be read. -/
theorem exists_visit (path : String) : ∀ tree : FileTree, tree.IsSorted → tree.HasEntryNames →
    ∃ files, ListsInOrder (IsVisited path tree) files ∧ visit path tree = files.map (located path)
  | .file given, _, _ => by
    by_cases h : (isIgnored path || !isJsonFile path) = true
    · refine ⟨[], .nil fun names content hvisited => ?_, if_pos h⟩
      obtain ⟨-, hkept, hext⟩ := isVisited_file_iff.mp hvisited
      rw [hkept, hext] at h
      cases h
    · refine ⟨[([], given)], ⟨fun names content => ?_, List.pairwise_singleton _ _⟩, if_neg h⟩
      have hread : isIgnored path = false ∧ isJsonFile path = true := by simpa using h
      rw [isVisited_file_iff, List.mem_singleton, Prod.mk.injEq, and_iff_left hread]
  | .device given, _, _ =>
    ⟨[], .nil fun _ _ => not_isVisited_device, rfl⟩
  | .directory entries, hsorted, hproper => by
    rw [visit]
    by_cases h : isIgnored path = true
    · refine ⟨[], .nil fun names content hvisited => ?_, if_pos h⟩
      have hkept := ((isVisited_directory_iff hproper).mp hvisited).1
      exact ne_true_of_eq_false hkept h
    · obtain ⟨files, hfiles, hvisit⟩ := exists_visitEntries path entries
        (hsorted [] entries rfl) fun name inner hinner => of_lookup hsorted hproper hinner
      refine ⟨files, hfiles.congr fun names content => ?_, (if_neg h).trans hvisit⟩
      rw [isVisited_directory_iff hproper, and_iff_right (Bool.eq_false_of_not_eq_true h)]

/-- A walk of sorted entries lists the files below them that are to be read. -/
theorem exists_visitEntries (path : String) : ∀ entries : List (String × FileTree),
    (entries.map Prod.fst).Pairwise (· < ·) →
    (∀ name inner, entries.lookup name = some inner → inner.IsSorted ∧ inner.HasEntryNames) →
    ∃ files, ListsInOrder (IsVisitedBelow path entries) files ∧
      visitEntries path entries = files.map (located path)
  | [], _, _ => by
    refine ⟨[], .nil fun names content => ?_, rfl⟩
    rintro ⟨name, rest, inner, -, hlookup, -⟩
    cases hlookup
  | (name, tree) :: rest, hsorted, hall => by
    -- the order of the names keeps the first entry from hiding another
    obtain ⟨hless, hrest⟩ := List.pairwise_cons.mp hsorted
    obtain ⟨htree, hproper⟩ := hall name tree List.lookup_cons_self
    obtain ⟨files, hfiles, hvisit⟩ := exists_visit (FilePath.join path name) tree htree hproper
    obtain ⟨more, hmore, hvisitMore⟩ := exists_visitEntries path rest hrest fun key inner h =>
      hall key inner (lookup_cons_of_lt hless h)
    refine ⟨_, hfiles.cons hless hmore, ?_⟩
    rw [visitEntries, hvisit, hvisitMore, List.map_append, List.map_map]
    rfl

end

/-- Sorting changes nothing in what is to be read. -/
theorem isVisited_sorted_iff {tree : FileTree} :
    IsVisited path tree.sorted names content ↔ IsVisited path tree names content := by
  have hfile : tree.sorted.at? names = some (.file content) ↔
      tree.at? names = some (.file content) := by
    rw [at?_sorted]
    cases tree.at? names with
    | none => rfl
    | some found => cases found <;> simp [sorted]
  constructor
  · rintro ⟨h, hkept, hext⟩
    exact ⟨hfile.mp h, hkept, hext⟩
  · rintro ⟨h, hkept, hext⟩
    exact ⟨hfile.mpr h, hkept, hext⟩

/-- A scan of a tree reads the files that are to be read. -/
theorem exists_visit_sorted (path : String) {tree : FileTree} (h : tree.HasEntryNames) :
    ∃ files, ListsInOrder (IsVisited path tree) files ∧
      visit path tree.sorted = files.map (located path) := by
  obtain ⟨files, hfiles, hvisit⟩ := exists_visit path tree.sorted (isSorted_sorted tree) h.sorted
  exact ⟨files, hfiles.congr fun _ _ => isVisited_sorted_iff.symm, hvisit⟩

end RollupInput.Catalog
