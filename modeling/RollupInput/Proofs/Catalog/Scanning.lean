import RollupInput.Proofs.Catalog.Merging
import RollupInput.Proofs.Catalog.Reading
import RollupInput.Proofs.Catalog.Visiting

/-!
# Scans

A scan goes through its roots in order and through the files of each in the order of a walk. A file
that is read as a whole adds its specifications, any other file adds one error and nothing else, and
every file counts. What several scans come to is merged as if it were one.
-/

namespace RollupInput.Catalog

open FileTree

/-- Whether a path is a root that can be scanned: a tree whose entries have names. -/
def IsRoot (disk : Disk) (path : String) : Prop :=
  ∃ tree, disk.find path = .ok tree ∧ tree.HasEntryNames

/-- Whether files are those that a scan of a root has to read, in order. -/
def AreFilesOf (disk : Disk) (path : String) (files : List (List String × List UInt8)) : Prop :=
  ∃ tree, disk.find path = .ok tree ∧ ListsInOrder (IsVisited path tree) files

/-- The files of some roots, one root after the other. -/
def filesBelow (paths : List String) (visits : List (List (List String × List UInt8))) :
    List (String × List UInt8) :=
  (List.zipWith (fun path files => files.map (located path)) paths visits).flatten

/-- The specifications that a file adds: all that it holds, or none. -/
def specsIn (file : String × List UInt8) : List Specification :=
  (parseFile file.2).toOption.getD []

/-- The error that a file adds, if it is not read as a whole. -/
def errorIn? (file : String × List UInt8) : Option String :=
  match parseFile file.2 with
  | .ok _ => none
  | .error e => some (file.1 ++ ": " ++ e.message)

/-- Whether a catalog is what some files come to. -/
structure IsReadFrom (files : List (String × List UInt8)) (c : Catalog) : Prop where
  /-- It has counted the files, up to the greatest count. -/
  scannedFiles : c.scannedFiles = min files.length maxCount
  /-- It has the specifications of all files in order. -/
  specs : c.specs = files.flatMap specsIn
  /-- It has one error for every file that is not read as a whole, in order. -/
  errors : c.errors = files.filterMap errorIn?

/-! ## One root -/

/-- A file is counted and adds its specifications or its error. -/
theorem addFile_eq (c : Catalog) (file : String × List UInt8) :
    addFile c file =
      ⟨c.specs ++ specsIn file, c.scannedFiles + 1, c.errors ++ (errorIn? file).toList⟩ := by
  unfold addFile specsIn errorIn?
  cases parseFile file.2 with
  | error e =>
    dsimp only [Except.toOption, Option.getD_none, Option.toList_some]
    rw [List.append_nil]
  | ok specs =>
    dsimp only [Except.toOption, Option.getD_some, Option.toList_none, append]
    rw [List.append_nil]

/-- Files are added in order. -/
theorem foldl_addFile (c : Catalog) (files : List (String × List UInt8)) :
    files.foldl addFile c = ⟨c.specs ++ files.flatMap specsIn, c.scannedFiles + files.length,
      c.errors ++ files.filterMap errorIn?⟩ := by
  induction files generalizing c with
  | nil => rw [List.foldl_nil, List.flatMap_nil, List.filterMap_nil, List.append_nil, List.append_nil,
      List.length_nil, Nat.add_zero]
  | cons file rest ih =>
    have herrors : (errorIn? file).toList ++ rest.filterMap errorIn? =
        (file :: rest).filterMap errorIn? := by
      rw [List.filterMap_cons]
      cases errorIn? file <;> rfl
    rw [List.foldl_cons, addFile_eq, ih]
    dsimp only
    rw [List.append_assoc, List.append_assoc, herrors, List.flatMap_cons, List.length_cons,
      Nat.add_assoc, Nat.add_comm 1]

/-- Every root has its files, and a scan of the root is what they come to. -/
theorem exists_areFilesOf {disk : Disk} {path : String} (h : IsRoot disk path) :
    ∃ files, AreFilesOf disk path files ∧
      scan disk path = (files.map (located path)).foldl addFile empty := by
  obtain ⟨tree, htree, hnames⟩ := h
  obtain ⟨files, hfiles, hvisit⟩ := exists_visit_sorted path hnames
  refine ⟨files, ⟨tree, htree, hfiles⟩, ?_⟩
  unfold scan scanTree
  rw [htree, ← hvisit]

/-- The files of a root are listed in one way only. -/
theorem AreFilesOf.unique {disk : Disk} {path : String} {files others : List (List String × List UInt8)}
    (h : AreFilesOf disk path files) (h' : AreFilesOf disk path others) : files = others := by
  obtain ⟨tree, htree, hfiles⟩ := h
  obtain ⟨same, hsame, hothers⟩ := h'
  rw [htree] at hsame
  cases hsame
  exact hfiles.unique hothers

/-! ## Several roots -/

/-- What several scans come to is put together. -/
theorem scanAll_eq_joined (disk : Disk) (paths : List String) :
    scanAll disk paths = joined (paths.map (scan disk)) :=
  foldl_eq_joined (fun _ _ _ => rfl) paths

/-- A scan of roots and more roots merges the scans of both. -/
theorem scanAll_append (disk : Disk) (paths more : List String) :
    scanAll disk (paths ++ more) = (scanAll disk paths).merge (scanAll disk more) := by
  rw [scanAll_eq_joined, scanAll_eq_joined, scanAll_eq_joined, List.map_append, joined_append]

/-- What files and more files come to is merged. -/
theorem IsReadFrom.merge {files more : List (String × List UInt8)} {c other : Catalog}
    (h : IsReadFrom files c) (h' : IsReadFrom more other) :
    IsReadFrom (files ++ more) (c.merge other) := by
  constructor
  · rw [Catalog.merge, h.scannedFiles, h'.scannedFiles, List.length_append]
    dsimp only
    omega
  · rw [Catalog.merge, h.specs, h'.specs, List.flatMap_append]
  · rw [Catalog.merge, h.errors, h'.errors, List.filterMap_append]

/-- A scan of one root is what its files come to. -/
theorem isReadFrom_scanAll_singleton {disk : Disk} {path : String} (hroot : IsRoot disk path)
    {files : List (List String × List UInt8)} (hfiles : AreFilesOf disk path files) :
    IsReadFrom (files.map (located path)) (scanAll disk [path]) := by
  obtain ⟨found, hfound, hscan⟩ := exists_areFilesOf hroot
  rw [hfound.unique hfiles, foldl_addFile, empty] at hscan
  dsimp only at hscan
  rw [List.nil_append, List.nil_append, Nat.zero_add] at hscan
  rw [scanAll_eq_joined, List.map_singleton, hscan]
  exact ⟨rfl, List.flatMap_singleton .., List.flatMap_singleton ..⟩

/-- A scan of several roots is what their files come to, root after root. -/
theorem isReadFrom_scanAll {disk : Disk} {paths : List String}
    {visits : List (List (List String × List UInt8))} (hroots : ∀ path ∈ paths, IsRoot disk path)
    (hvisits : List.Forall₂ (AreFilesOf disk) paths visits) :
    IsReadFrom (filesBelow paths visits) (scanAll disk paths) := by
  induction hvisits with
  | nil => exact ⟨(Nat.zero_min _).symm, rfl, rfl⟩
  | @cons path files rest more hfiles _ ih =>
    obtain ⟨hroot, hrest⟩ := List.forall_mem_cons.mp hroots
    have hall := (isReadFrom_scanAll_singleton hroot hfiles).merge (ih hrest)
    rw [← scanAll_append] at hall
    exact hall

/-- A scan of roots reads the files below them that are to be read, in the order of a walk and root
after root. It counts them, it has the specifications of those that are read as a whole, and it has
one error for each of the others. A file is read as a whole exactly if its bytes are a text of JSON
all of whose items are specifications. A scan of roots and more roots merges the scans of both. -/
theorem scans_read_files (disk : Disk) :
    (∀ paths, (∀ path ∈ paths, IsRoot disk path) →
      (∃ visits, List.Forall₂ (AreFilesOf disk) paths visits) ∧
      ∀ visits, List.Forall₂ (AreFilesOf disk) paths visits →
        IsReadFrom (filesBelow paths visits) (scanAll disk paths)) ∧
    (∀ content, IsFileReadingOf content (parseFile content)) ∧
    ∀ paths more, scanAll disk (paths ++ more) = (scanAll disk paths).merge (scanAll disk more) := by
  refine ⟨fun paths hroots => ⟨?_, fun visits => isReadFrom_scanAll hroots⟩,
    isFileReadingOf_parseFile, scanAll_append disk⟩
  induction paths with
  | nil => exact ⟨[], .nil⟩
  | cons path rest ih =>
    obtain ⟨hroot, hrest⟩ := List.forall_mem_cons.mp hroots
    obtain ⟨files, hfiles, -⟩ := exists_areFilesOf hroot
    obtain ⟨visits, hvisits⟩ := ih hrest
    exact ⟨files :: visits, .cons hfiles hvisits⟩

/-- A specification as it is written. -/
def written : Json := .obj [("mode", .str "abi_params"), ("name", .str "t")]

/-- The bytes of a file with the specification. -/
def good : List UInt8 := Text.Utf8.encode (Json.pretty written).toList

/-- The bytes of a file with the specification and an item that is none. -/
def bad : List UInt8 := Text.Utf8.encode (Json.pretty (.arr [written, .null])).toList

/-- A directory with both files, bytes that are no text, and a file below an entry that is left out. -/
def sampleRoot : FileTree :=
  .directory [("c.json", .file bad), ("target", .directory [("d.json", .file good)]),
    ("b", .directory [("a.json", .file [0xFF])]), ("a.json", .file good), ("a.txt", .file good)]

/-- A disk that has only the directory, under one path. -/
def sampleDisk : Disk := ⟨fun path => if path = "in" then .ok sampleRoot else .error .notFound⟩

/-- The directory can be scanned. -/
theorem isRoot_sampleRoot : IsRoot sampleDisk "in" := by
  refine ⟨sampleRoot, rfl, ?_⟩
  unfold sampleRoot
  simp +decide [hasEntryNames_directory, hasEntryNames_file]

/-- The file that is good adds its specification, those that are not add an error each, and nothing
is read of what is left out. -/
theorem scan_of_sampleRoot :
    ∃ files, AreFilesOf sampleDisk "in" files ∧
      files.map (located "in") = [("in/a.json", good), ("in/b/a.json", [0xFF]), ("in/c.json", bad)] ∧
      (scanAll sampleDisk ["in"]).scannedFiles = 3 ∧
      (scanAll sampleDisk ["in"]).specs = [⟨none, "t", 0, 0, .params ⟨[], none, none⟩, none⟩] ∧
      (scanAll sampleDisk ["in"]).errors =
        ["in/b/a.json: " ++ CatalogFault.bytes.message,
          "in/c.json: " ++ (CatalogFault.item 1 (.unknownMode "")).message] := by
  obtain ⟨tree, htree, hproper⟩ := isRoot_sampleRoot
  cases htree
  obtain ⟨files, hlists, hvisit⟩ := exists_visit_sorted "in" hproper
  have hthree : files.map (located "in") =
      [("in/a.json", good), ("in/b/a.json", [0xFF]), ("in/c.json", bad)] := by
    rw [← hvisit]
    with_unfolding_all rfl
  have hfiles : AreFilesOf sampleDisk "in" files := ⟨_, rfl, hlists⟩
  have hread := ((scans_read_files sampleDisk).1 ["in"]
    (List.forall_mem_singleton.mpr ⟨_, rfl, hproper⟩)).2 [files] (.cons hfiles .nil)
  have hbelow : filesBelow ["in"] [files] = files.map (located "in") := List.append_nil _
  have hgood : parseFile good = .ok [⟨none, "t", 0, 0, .params ⟨[], none, none⟩, none⟩] := by
    have hsmall : written.HasSmallNumbers := ⟨trivial, trivial, trivial⟩
    rw [good, parseFile_encode, parse_pretty_eq_ofJson hsmall (by decide)]
    with_unfolding_all rfl
  have hbad : parseFile bad = .error (.item 1 (.unknownMode "")) := by
    have hsmall : (Json.arr [written, .null]).HasSmallNumbers :=
      ⟨⟨trivial, trivial, trivial⟩, trivial, trivial⟩
    rw [bad, parseFile_encode, parse_pretty_eq_ofJson hsmall (by decide)]
    with_unfolding_all rfl
  have hbytes : parseFile [0xFF] = .error .bytes := by with_unfolding_all rfl
  rw [hbelow, hthree] at hread
  refine ⟨files, hfiles, hthree, hread.scannedFiles.trans (by decide +kernel), ?_, ?_⟩
  · rw [hread.specs]
    simp [specsIn, hgood, hbad, hbytes, Except.toOption]
  · rw [hread.errors]
    simp [errorIn?, hgood, hbad, hbytes]

end RollupInput.Catalog
