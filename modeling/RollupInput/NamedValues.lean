import RollupInput.Abi.Value

/-!
# Named values

The result of a decode: values by name, in the order in which the names first came. Putting a
value under a name that is there already replaces the value and keeps the place.
-/

namespace RollupInput

/-- Values by name in insertion order. -/
structure NamedValues where
  /-- The names with their values, each name once if built by `insert`. -/
  entries : List (String × Abi.Value)
  deriving Repr, BEq, Inhabited

namespace NamedValues

/-- No values. -/
def empty : NamedValues := ⟨[]⟩

/-- Replace the value of the first entry of a name, or add an entry at the end. -/
def insertEntry (name : String) (v : Abi.Value) :
    List (String × Abi.Value) → List (String × Abi.Value)
  | [] => [(name, v)]
  | (key, w) :: rest =>
    if key = name then (key, v) :: rest else (key, w) :: insertEntry name v rest

/-- Put a value under a name. -/
def insert (r : NamedValues) (name : String) (v : Abi.Value) : NamedValues :=
  ⟨insertEntry name v r.entries⟩

/-- Put the values of a list under their names, one after the other. -/
def insertAll (r : NamedValues) (entries : List (String × Abi.Value)) : NamedValues :=
  entries.foldl (fun r e => r.insert e.1 e.2) r

/-- The value under a name. -/
def get? (r : NamedValues) (name : String) : Option Abi.Value := r.entries.lookup name

/-- Whether there is a value under a name. -/
def contains (r : NamedValues) (name : String) : Bool := (r.get? name).isSome

/-- The names in order. -/
def keys (r : NamedValues) : List String := r.entries.map (·.1)

/-- The number of values. -/
def size (r : NamedValues) : Nat := r.entries.length

/-- The values as a JSON object. -/
def json (r : NamedValues) : Json := .obj (Abi.Value.jsonFields r.entries)

end NamedValues

end RollupInput
