import RollupInput.FileTree
import RollupInput.Json.Reader
import RollupInput.Portals
import RollupInput.Specification.Json

/-!
# Catalogs

A catalog is a list of specifications whose order is their priority in matching. It is read from
JSON text, one specification or an array of them, and from trees of files. A file of a tree
counts as a whole: one bad specification in it keeps out all others of the file.
-/

namespace RollupInput

/-- The greatest count that a catalog keeps. -/
def maxCount : Nat := Nat.pow 2 64 - 1

/-- Why a text is no list of specifications. -/
inductive CatalogFault where
  /-- The bytes of a file are no text. -/
  | bytes
  /-- The text is not JSON. -/
  | text (cause : Json.TextError)
  /-- The specification at an index is refused. -/
  | item (index : Nat) (cause : DecodeFault)
  deriving DecidableEq, Repr

namespace CatalogFault

/-- What the fault is about, without its cause. -/
def context : CatalogFault → String
  | .bytes => FileTree.textFault
  | .text cause => cause.message
  | .item index _ => s!"specification #{index}"

/-- The wording of a fault with its cause. -/
def message : CatalogFault → String
  | .bytes => FileTree.textFault
  | .text cause => cause.message
  | .item index cause => s!"specification #{index}: {cause.message}"

end CatalogFault

/-- Specifications with an account of how they were found. -/
structure Catalog where
  /-- The specifications by priority. -/
  specs : List Specification
  /-- The number of files that were read. -/
  scannedFiles : Nat
  /-- What was wrong with files that were not taken. -/
  errors : List String
  deriving Repr

namespace Catalog

/-- The catalog of nothing. -/
def empty : Catalog := ⟨[], 0, []⟩

/-- Add a specification at the end. -/
def push (c : Catalog) (spec : Specification) : Catalog := { c with specs := c.specs ++ [spec] }

/-- Add specifications at the end. -/
def append (c : Catalog) (specs : List Specification) : Catalog :=
  { c with specs := c.specs ++ specs }

/-- Add the built-in specifications at the end. -/
def withBuiltIn (c : Catalog) : Catalog := c.append Portals.specifications

/-- Put another catalog behind this one. The count of files stops at its greatest value. -/
def merge (c other : Catalog) : Catalog :=
  ⟨c.specs ++ other.specs, min (c.scannedFiles + other.scannedFiles) maxCount,
    c.errors ++ other.errors⟩

/-- The first specification of an identifier, else the first of a name. -/
def get? (c : Catalog) (key : String) : Option Specification :=
  (c.specs.find? (·.id == some key)).or (c.specs.find? (·.name == key))

/-- Read the items of an array, the first of which has the given index. -/
def ofItems (index : Nat) : List Json → Except CatalogFault (List Specification)
  | [] => .ok []
  | v :: rest =>
    match Specification.ofJson v with
    | .error e => .error (.item index e)
    | .ok spec => (ofItems (index + 1) rest).map (spec :: ·)

/-- Read one specification or an array of them. -/
def ofJson : Json → Except CatalogFault (List Specification)
  | .arr items => ofItems 0 items
  | v => ofItems 0 [v]

/-- Read a text that holds one specification or an array of them. -/
def parse (content : String) : Except CatalogFault (List Specification) :=
  match Json.parse content with
  | .error e => .error (.text e)
  | .ok v => ofJson v

/-- Read the content of a file. -/
def parseFile (content : List UInt8) : Except CatalogFault (List Specification) :=
  match FileTree.text? content with
  | none => .error .bytes
  | some text => parse text

/-- Write specifications as an indented array. -/
def exportText (specs : List Specification) : String :=
  Json.pretty (.arr (specs.map Specification.json))

/-- The names of entries that a scan leaves out with all that is below them. -/
def ignoredNames : List String := [".git", "target", "node_modules"]

/-- Whether a scan leaves out the entry that a path leads to. -/
def isIgnored (path : String) : Bool :=
  match FilePath.fileName? path with
  | some name => ignoredNames.contains name
  | none => false

/-- Whether a scan reads the file that a path leads to. -/
def isJsonFile (path : String) : Bool := FilePath.extension? path == some "json"

mutual

/-- The files that a scan reads below an entry, in the order of the tree, with their contents. -/
def visit (path : String) : FileTree → List (String × List UInt8)
  | .file content => if isIgnored path || !isJsonFile path then [] else [(path, content)]
  | .device _ => []
  | .directory entries => if isIgnored path then [] else visitEntries path entries

/-- The files that a scan reads below the entries of a directory. -/
def visitEntries (path : String) : List (String × FileTree) → List (String × List UInt8)
  | [] => []
  | (name, tree) :: rest => visit (FilePath.join path name) tree ++ visitEntries path rest

end

/-- Add what one file holds: its specifications, or one error. -/
def addFile (c : Catalog) (file : String × List UInt8) : Catalog :=
  let counted : Catalog := { c with scannedFiles := c.scannedFiles + 1 }
  match parseFile file.2 with
  | .ok specs => counted.append specs
  | .error e => { counted with errors := counted.errors ++ [file.1 ++ ": " ++ e.message] }

/-- Read the specifications of a tree, whose entries are visited in the order of their names. -/
def scanTree (path : String) (tree : FileTree) : Catalog :=
  (visit path tree.sorted).foldl addFile empty

/-- Read the specifications below a path. -/
def scan (disk : Disk) (path : String) : Catalog :=
  match disk.find path with
  | .ok tree => scanTree path tree
  | .error e => ⟨[], 0, [s!"IO error for operation on {path}: {e.message}"]⟩

/-- Read the specifications below several paths, in the order of the paths. -/
def scanAll (disk : Disk) (paths : List String) : Catalog :=
  paths.foldl (fun c path => c.merge (scan disk path)) empty

end Catalog

end RollupInput
