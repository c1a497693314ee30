import RollupInput.Text

/-!
# File paths

Paths are texts with slashes between their parts. These functions look at the text alone.
-/

namespace RollupInput.FilePath

/-- The parts of a path between its slashes; empty ones are kept. -/
def parts (path : String) : List String :=
  (Text.cutWhere (· == '/') path.toList).map String.ofList

/-- Whether a path starts at the root. -/
def isAbsolute (path : String) : Bool := path.toList.head? == some '/'

/-- The path that leads from a base along another path. An absolute path replaces the base. -/
def join (base path : String) : String :=
  if isAbsolute path then path
  else if base.isEmpty || base.toList.getLast? == some '/' then base ++ path
  else base ++ "/" ++ path

/-- The name of the entry that a path leads to, unless its last step stays or goes up. Slashes and
points at the end do not count. -/
def fileName? (path : String) : Option String :=
  match ((parts path).filter fun part => part != "" && part != ".").getLast? with
  | none => none
  | some name => if name == ".." then none else some name

/-- What follows the last point of a name that has something in front of that point. -/
def extensionOf? (name : String) : Option String :=
  let backward := name.toList.reverse
  match backward.dropWhile (· != '.') with
  | [] => none
  | _ :: stem =>
    if stem.isEmpty then none
    else some (String.ofList (backward.takeWhile (· != '.')).reverse)

/-- The extension of the entry that a path leads to. -/
def extension? (path : String) : Option String := (fileName? path).bind extensionOf?

end RollupInput.FilePath
