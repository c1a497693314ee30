/-!
# Lazy tables

A lazy table holds the values of a function at the first natural numbers. A value is computed
when it is first asked for and then kept, so a value that many others are made of is computed
once. The entries lie in blocks, and a block is laid out when one of its entries is first asked
for. Asking a table is asking the function, which `get_ofFn` states: what is said of one holds
of the other.
-/

namespace RollupInput

/-- The values of a function, each computed at most once. -/
structure LazyTable (α : Type) where
  /-- The function, asked directly beyond the entries. -/
  fn : Nat → α
  /-- The entries in blocks of `LazyTable.blockSize`. -/
  blocks : Array (Thunk (Array (Thunk α)))

namespace LazyTable

/-- The number of entries of a block. -/
def blockSize : Nat := 32

/-- The table of a function with at least `n` entries. -/
def ofFn {α : Type} (n : Nat) (f : Nat → α) : LazyTable α where
  fn := f
  blocks := (Array.range (n / blockSize + 1)).map fun b => Thunk.mk fun _ =>
    (Array.range blockSize).map fun i => Thunk.mk fun _ => f (blockSize * b + i)

/-- The value at a number. -/
def get {α : Type} (t : LazyTable α) (n : Nat) : α :=
  match t.blocks[n / blockSize]? with
  | none => t.fn n
  | some block =>
    match block.get[n % blockSize]? with
    | none => t.fn n
    | some entry => entry.get

/-- A table gives what its function gives, at every number. -/
@[simp] theorem get_ofFn {α : Type} (n : Nat) (f : Nat → α) (m : Nat) :
    (ofFn n f).get m = f m := by
  have hm : m % blockSize < blockSize := Nat.mod_lt m (by decide)
  simp only [get, ofFn, Array.getElem?_map, Array.getElem?_range]
  by_cases h : m / blockSize < n / blockSize + 1
  · simp [h, Thunk.get, hm, Nat.div_add_mod]
  · simp [h]

end LazyTable

end RollupInput
