import RollupInput.FilePath
import RollupInput.Text.Utf8

/-!
# File trees

A tree of files and directories as data, with the operations that the command line needs: to look
up what a path leads to, and to write a file. Looking up follows a path part by part, and every
part but the last has to lead to a directory. An entry may also be a device, which is read and
written like a file but is none.
-/

namespace RollupInput

/-- An entry of a file system with all that is below it. -/
inductive FileTree where
  /-- A file with its content. -/
  | file (content : List UInt8)
  /-- A device with what is read from it. What is written to it is gone. -/
  | device (content : List UInt8)
  /-- A directory with its entries by name. -/
  | directory (entries : List (String × FileTree))
  deriving Repr, Inhabited

/-- Why a path leads nowhere. -/
inductive PathFault where
  /-- There is no entry of the name. -/
  | notFound
  /-- A part in the middle is no directory. -/
  | notDirectory
  /-- A part, or the whole path, is longer than the system takes. -/
  | tooLong
  /-- The path holds the character that ends a text for the system. -/
  | endsInside
  deriving DecidableEq, Repr

/-- The wording of a fault. -/
def PathFault.message : PathFault → String
  | .notFound => "No such file or directory (os error 2)"
  | .notDirectory => "Not a directory (os error 20)"
  | .tooLong => "File name too long (os error 36)"
  | .endsInside => "file name contained an unexpected NUL byte"

/-- How many bytes the name of an entry may have. -/
def maxNameBytes : Nat := 255

/-- How many bytes a path may have. -/
def maxPathBytes : Nat := 4095

namespace FileTree

/-- The file that holds a text. -/
def ofText (text : String) : FileTree := .file (Text.Utf8.encode text.toList)

/-- The text of a file's content, if it is one. -/
def text? (content : List UInt8) : Option String :=
  (Text.Utf8.decodeStrict? content).map String.ofList

/-- What is wrong with content that is no text. -/
def textFault : String := "stream did not contain valid UTF-8"

/-- Put an entry into a list that is sorted by name; an entry of the same name is replaced. -/
def insertEntry (name : String) (tree : FileTree) :
    List (String × FileTree) → List (String × FileTree)
  | [] => [(name, tree)]
  | (other, old) :: rest =>
    if name = other then (name, tree) :: rest
    else if name < other then (name, tree) :: (other, old) :: rest
    else (other, old) :: insertEntry name tree rest

mutual

/-- The tree with the entries of every directory sorted by name. -/
def sorted : FileTree → FileTree
  | .file content => .file content
  | .device content => .device content
  | .directory entries => .directory (sortedEntries entries)

/-- Entries sorted by name, each of them sorted too. -/
def sortedEntries : List (String × FileTree) → List (String × FileTree)
  | [] => []
  | (name, tree) :: rest => insertEntry name (sorted tree) (sortedEntries rest)

end

/-- What names lead to, from the root of a tree down. -/
def at? (tree : FileTree) : List String → Option FileTree
  | [] => some tree
  | name :: rest =>
    match tree with
    | .file _ | .device _ => none
    | .directory entries => (entries.lookup name).bind fun inner => inner.at? rest

/-- Whether names lead to a directory. -/
def isDirectory (tree : FileTree) (names : List String) : Bool :=
  match tree.at? names with
  | some (.directory _) => true
  | _ => false

/-- The names that lead from the root to where the parts of a path lead from a directory. -/
def locate (tree : FileTree) (here : List String) : List String → Except PathFault (List String)
  | [] => .ok here
  | part :: rest =>
    if !tree.isDirectory here then .error .notDirectory
    else if part == "" || part == "." then locate tree here rest
    else if part == ".." then locate tree here.dropLast rest
    else if maxNameBytes < part.utf8ByteSize then .error .tooLong
    else if (tree.at? (here ++ [part])).isSome then locate tree (here ++ [part]) rest
    else .error .notFound

/-- The directory in which a path starts: the root, or the working directory. -/
def startOf (cwd : List String) (path : String) : List String :=
  if FilePath.isAbsolute path then [] else cwd

/-- What is wrong with a path whatever the tree holds. -/
def pathFault? (path : String) : Option PathFault :=
  if path.isEmpty then some .notFound
  else if path.toList.contains '\x00' then some .endsInside
  else if maxPathBytes < path.utf8ByteSize then some .tooLong
  else none

/-- What a path leads to. An empty path leads nowhere. -/
def find (tree : FileTree) (cwd : List String) (path : String) : Except PathFault FileTree :=
  match pathFault? path with
  | some e => .error e
  | none =>
    match tree.locate (startOf cwd path) (FilePath.parts path) with
    | .error e => .error e
    | .ok names =>
      match tree.at? names with
      | some found => .ok found
      | none => .error .notFound

/-- Put a file where names lead to, with the directories above it. Nothing comes of names that
lead through a file. -/
def put? (content : FileTree) : List String → FileTree → Option FileTree
  | [], _ => some content
  | name :: rest, .directory entries =>
    (put? content rest ((entries.lookup name).getD (.directory []))).map fun inner =>
      .directory (insertEntry name inner entries)
  | _ :: _, .file _ | _ :: _, .device _ => none

/-- Write a file at a path. Its directory has to be there already, and it must not be one. -/
def write? (tree : FileTree) (cwd : List String) (path content : String) : Option FileTree :=
  let parts := FilePath.parts path
  match parts.getLast? with
  | none => none
  | some name =>
    if name == "" || name == "." || name == ".." || maxNameBytes < name.utf8ByteSize ||
        (pathFault? path).isSome then none
    else
      match tree.locate (startOf cwd path) parts.dropLast with
      | .error _ => none
      | .ok here =>
        match tree.at? (here ++ [name]) with
        | some (.directory _) => none
        | some (.device _) => some tree
        | _ => if tree.isDirectory here then put? (ofText content) (here ++ [name]) tree else none

/-- Make the directory that names lead to, unless it is there. -/
def withDirectory (tree : FileTree) (names : List String) : FileTree :=
  if tree.isDirectory names then tree else (put? (.directory []) names tree).getD tree

/-- Follow the parts of a path from a directory, and make the directories that are missing on the
way. -/
def withWay (tree : FileTree) (here : List String) : List String → FileTree × List String
  | [] => (tree, here)
  | part :: rest =>
    if part == "" || part == "." then withWay tree here rest
    else if part == ".." then withWay tree here.dropLast rest
    else withWay (tree.withDirectory (here ++ [part])) (here ++ [part]) rest

/-- Put a file below a directory, with the directories on its way. A path with a slash at its end
makes a directory. -/
def withFile (below : List String) (tree : FileTree) (file : String × String) : FileTree :=
  let parts := FilePath.parts file.1
  let (tree, here) := withWay tree below parts.dropLast
  match parts.getLast? with
  | none | some "" => tree
  | some name => (put? (ofText file.2) (here ++ [name]) tree).getD tree

/-- The tree that holds some files below a directory. -/
def ofFiles (below : List String) (files : List (String × String)) : FileTree :=
  files.foldl (withFile below) (withDirectory (.directory []) below)

mutual

/-- The files of a tree with their paths, which continue a given path. -/
def filesFrom (path : String) : FileTree → List (String × List UInt8)
  | .file content => [(path, content)]
  | .device _ => []
  | .directory entries => filesOfEntries path entries

/-- The files of some entries with their paths. -/
def filesOfEntries (path : String) : List (String × FileTree) → List (String × List UInt8)
  | [] => []
  | (name, tree) :: rest => filesFrom (FilePath.join path name) tree ++ filesOfEntries path rest

end

end FileTree

/-- A way to look up what a path leads to. -/
structure Disk where
  /-- The entry that a path leads to, or why it leads nowhere. -/
  find : String → Except PathFault FileTree

/-- The content of the file that a path leads to. -/
def Disk.file? (disk : Disk) (path : String) : Option (List UInt8) :=
  match disk.find path with
  | .ok (.file content) => some content
  | _ => none

/-- The text that is read from the file or device that a path leads to, if it is one. -/
def Disk.text? (disk : Disk) (path : String) : Option String :=
  match disk.find path with
  | .ok (.file content) | .ok (.device content) => FileTree.text? content
  | _ => none

end RollupInput
