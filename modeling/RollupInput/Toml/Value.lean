import RollupInput.Text

/-!
# TOML values

The values of a TOML document, and tables while they are being built. A table knows how it came
to be, since the format lets it be extended only in the way it was begun.
-/

namespace RollupInput

/-- A TOML value. -/
inductive Toml where
  /-- A string. -/
  | string (value : String)
  /-- An integer of 64 bits. -/
  | integer (value : Int)
  /-- A float, as it is written. -/
  | float (written : String)
  /-- A truth value. -/
  | boolean (value : Bool)
  /-- A date, a time or both, as written. -/
  | dateTime (written : String)
  /-- An array. -/
  | array (items : List Toml)
  /-- A table. -/
  | table (members : List (String × Toml))
  deriving Repr, BEq, Inhabited

namespace Toml

/-- How a table was begun. -/
inductive Origin where
  /-- By its own header or as an inline table: nothing may be put into it from elsewhere. -/
  | header
  /-- As the parent of a table that has a header: a header of its own may still come. -/
  | parent
  /-- By a key with points: only further such keys may extend it. -/
  | dotted
  deriving DecidableEq, Repr

/-- What stands under a key while a document is read. -/
inductive Node where
  /-- A value. -/
  | value (value : Toml)
  /-- A table. -/
  | table (origin : Origin) (members : List (String × Node))
  /-- The tables of an array of tables, the latest first. -/
  | tables (latest : List (String × Node)) (earlier : List Toml)
  deriving Repr, Inhabited

mutual

/-- The value that a node has become. -/
def Node.freeze : Node → Toml
  | .value v => v
  | .table _ members => .table (freezeMembers members)
  | .tables latest earlier => .array (earlier.reverse ++ [.table (freezeMembers latest)])

/-- The members of a table with the values that their nodes have become. -/
def freezeMembers : List (String × Node) → List (String × Toml)
  | [] => []
  | (key, node) :: rest => (key, node.freeze) :: freezeMembers rest

end

/-- Replace what stands under a key, or put it behind all other keys. -/
def setMember (key : String) (node : Node) : List (String × Node) → List (String × Node)
  | [] => [(key, node)]
  | (other, old) :: rest =>
    if other = key then (other, node) :: rest else (other, old) :: setMember key node rest

/-- Change the members of the table that a path of keys leads to, where the tables on the way come
to be as parents of a table with a header. The latest table of an array stands for the array. -/
def changeAt (change : List (String × Node) → Option (List (String × Node))) :
    List String → List (String × Node) → Option (List (String × Node))
  | [], members => change members
  | key :: path, members =>
    match members.lookup key with
    | none =>
      (changeAt change path []).map fun inner => setMember key (.table .parent inner) members
    | some (.table origin inner) =>
      (changeAt change path inner).map fun inner => setMember key (.table origin inner) members
    | some (.tables latest earlier) =>
      (changeAt change path latest).map fun latest =>
        setMember key (.tables latest earlier) members
    | some (.value _) => none

/-- Put a value under a path of keys inside a table. Tables that are missing on the way come to be
by keys with points, and the innermost one must have come to be like that. The others may also
have come to be as parents, and the latest table of an array stands for the array. -/
def insertDotted (v : Toml) : List String → List (String × Node) → Option (List (String × Node))
  | [], _ => none
  | [key], members =>
    if (members.lookup key).isSome then none else some (setMember key (.value v) members)
  | key :: next :: path, members =>
    match members.lookup key with
    | none =>
      (insertDotted v (next :: path) []).map fun inner =>
        setMember key (.table .dotted inner) members
    | some (.table origin inner) =>
      if origin == .dotted || (origin == .parent && !path.isEmpty) then
        (insertDotted v (next :: path) inner).map fun inner =>
          setMember key (.table origin inner) members
      else none
    | some (.tables latest earlier) =>
      if path.isEmpty then none
      else
        (insertDotted v (next :: path) latest).map fun latest =>
          setMember key (.tables latest earlier) members
    | some (.value _) => none

/-- Begin a table by its header. Its key must be free, or be that of a table that only came to be
as a parent. -/
def openTable (key : String) (members : List (String × Node)) : Option (List (String × Node)) :=
  match members.lookup key with
  | none => some (setMember key (.table .header []) members)
  | some (.table .parent inner) => some (setMember key (.table .header inner) members)
  | some _ => none

/-- Begin one more table of an array of tables. -/
def openTableOfArray (key : String) (members : List (String × Node)) :
    Option (List (String × Node)) :=
  match members.lookup key with
  | none => some (setMember key (.tables [] []) members)
  | some (.tables latest earlier) =>
    some (setMember key (.tables [] (.table (freezeMembers latest) :: earlier)) members)
  | some _ => none

end Toml

end RollupInput
