import Mathlib.Order.Basic
import Mathlib.Data.String.Basic
import RollupInput.Contract.Interface

/-!
# Items in the order of their names

An interface keeps its functions, events and errors in the order of their names. Taking its items
in their written order therefore changes nothing: every item comes behind those that are there.
-/

namespace RollupInput.Contract

variable {α : Type} {name : α → String}

/-- Whether items stand in the order of their names. -/
def InOrder (name : α → String) (items : List α) : Prop :=
  items.Pairwise fun a b => name a ≤ name b

/-- The items after an insertion are the item and those before. -/
theorem perm_insertByName (name : α → String) (item : α) (items : List α) :
    (insertByName name item items).Perm (item :: items) := by
  induction items with
  | nil => exact .refl _
  | cons first rest ih =>
    rw [insertByName]
    split
    · exact .refl _
    · exact (ih.cons first).trans (.swap item first rest)

/-- An insertion keeps the order. -/
theorem inOrder_insertByName {item : α} {items : List α} (h : InOrder name items) :
    InOrder name (insertByName name item items) := by
  induction items with
  | nil => exact List.pairwise_singleton _ _
  | cons first rest ih =>
    obtain ⟨hfirst, hrest⟩ := List.pairwise_cons.mp h
    rw [insertByName]
    split
    · next hlt =>
      refine List.pairwise_cons.mpr ⟨?_, h⟩
      intro other hother
      rcases List.mem_cons.mp hother with rfl | hother
      · exact le_of_lt hlt
      · exact le_trans (le_of_lt hlt) (hfirst other hother)
    · next hnot =>
      refine List.pairwise_cons.mpr ⟨?_, ih hrest⟩
      intro other hother
      rcases List.mem_cons.mp ((perm_insertByName name item rest).mem_iff.mp hother) with rfl | hother
      · exact not_lt.mp hnot
      · exact hfirst other hother

/-- An item whose name is not smaller than the others comes behind them. -/
theorem insertByName_of_le {item : α} {items : List α} (h : ∀ other ∈ items, name other ≤ name item) :
    insertByName name item items = items ++ [item] := by
  induction items with
  | nil => rfl
  | cons first rest ih =>
    have hrest := ih fun other hother => h other (List.mem_cons_of_mem first hother)
    have hnot : ¬name item < name first := not_lt.mpr (h first List.mem_cons_self)
    rw [insertByName, if_neg hnot, hrest, List.cons_append]

namespace Interface

/-- Items of one kind that come in order behind those that are there are added as they are. What
the kind is is told by where an interface keeps its items. -/
theorem foldlM_inOrder (name : α → String) (wrap : α → Item) (kept : Interface → List α)
    (put : Interface → List α → Interface)
    (hadd : ∀ abi a, add? abi (wrap a) = some (put abi (insertByName name a (kept abi))))
    (hkept : ∀ abi as, kept (put abi as) = as) (hput : ∀ abi as bs, put (put abi as) bs = put abi bs)
    (hself : ∀ abi, put abi (kept abi) = abi) (abi : Interface) (as : List α)
    (h : InOrder name (kept abi ++ as)) :
    (as.map wrap).foldlM add? abi = some (put abi (kept abi ++ as)) := by
  induction as generalizing abi with
  | nil =>
    rw [List.append_nil, hself]
    rfl
  | cons a rest ih =>
    have hle : ∀ other ∈ kept abi, name other ≤ name a := fun other hother =>
      (List.pairwise_append.mp h).2.2 other hother a List.mem_cons_self
    rw [List.append_cons] at h
    have hrest := ih (put abi (kept abi ++ [a])) (by rwa [hkept])
    rw [hkept, hput, ← List.append_cons] at hrest
    rw [List.map_cons, List.foldlM_cons, hadd, insertByName_of_le hle]
    exact hrest

/-- Whether the functions, events and errors of an interface stand in the order of their names. -/
structure IsInOrder (abi : Interface) : Prop where
  /-- The functions do. -/
  functions : InOrder Function.name abi.functions
  /-- The events do. -/
  events : InOrder Event.name abi.events
  /-- The errors do. -/
  errors : InOrder ErrorItem.name abi.errors

/-- Adding an item keeps the order. -/
theorem isInOrder_add? {abi next : Interface} {item : Item} (h : abi.IsInOrder)
    (hadd : abi.add? item = some next) : next.IsInOrder := by
  cases item with
  | constructor c =>
    rw [add?] at hadd
    split at hadd
    · cases hadd
    · cases hadd
      exact ⟨h.functions, h.events, h.errors⟩
  | fallback m =>
    rw [add?] at hadd
    split at hadd
    · cases hadd
    · cases hadd
      exact ⟨h.functions, h.events, h.errors⟩
  | receive m =>
    rw [add?] at hadd
    split at hadd
    · cases hadd
    · cases hadd
      exact ⟨h.functions, h.events, h.errors⟩
  | function f =>
    cases hadd
    exact ⟨inOrder_insertByName h.functions, h.events, h.errors⟩
  | event e =>
    cases hadd
    exact ⟨h.functions, inOrder_insertByName h.events, h.errors⟩
  | error e =>
    cases hadd
    exact ⟨h.functions, h.events, inOrder_insertByName h.errors⟩

/-- An interface that is made of items is in order. -/
theorem isInOrder_of_foldlM {items : List Item} {abi next : Interface} (h : abi.IsInOrder)
    (hfold : items.foldlM add? abi = some next) : next.IsInOrder := by
  induction items generalizing abi with
  | nil =>
    cases hfold
    exact h
  | cons item rest ih =>
    rw [List.foldlM_cons] at hfold
    obtain ⟨between, hadd, hrest⟩ := Option.bind_eq_some_iff.mp hfold
    exact ih (isInOrder_add? h hadd) hrest

/-- The items after an addition are the item and those before. -/
theorem perm_items_add? {abi next : Interface} {item : Item} (hadd : abi.add? item = some next) :
    next.items.Perm (item :: abi.items) := by
  have hbehind (front : List Item) {kept changed : List Item} (h : changed.Perm (item :: kept)) :
      (front ++ changed).Perm (item :: (front ++ kept)) := (h.append_left front).trans List.perm_middle
  cases item with
  | constructor c =>
    rw [add?] at hadd
    split at hadd
    · cases hadd
    · next hfree =>
      cases hadd
      rw [items, items, Option.not_isSome_iff_eq_none.mp hfree]
      exact .refl _
  | fallback m =>
    rw [add?] at hadd
    split at hadd
    · cases hadd
    · next hfree =>
      cases hadd
      rw [items, items, Option.not_isSome_iff_eq_none.mp hfree]
      exact ((((hbehind _ (.refl _)).append_right _).append_right _).append_right _).append_right _
  | receive m =>
    rw [add?] at hadd
    split at hadd
    · cases hadd
    · next hfree =>
      cases hadd
      rw [items, items, Option.not_isSome_iff_eq_none.mp hfree]
      exact (((hbehind _ (.refl _)).append_right _).append_right _).append_right _
  | function f =>
    cases hadd
    have hfunctions := (perm_insertByName Function.name f abi.functions).map Item.function
    exact ((hbehind _ hfunctions).append_right _).append_right _
  | event e =>
    cases hadd
    have hevents := (perm_insertByName Event.name e abi.events).map Item.event
    exact (hbehind _ hevents).append_right _
  | error e =>
    cases hadd
    have herrors := (perm_insertByName ErrorItem.name e abi.errors).map Item.error
    exact hbehind _ herrors

/-- The items of an interface are those that it is made of, and those it had before. -/
theorem perm_items_of_foldlM {made : List Item} {abi next : Interface}
    (hfold : made.foldlM add? abi = some next) : next.items.Perm (made ++ abi.items) := by
  induction made generalizing abi with
  | nil =>
    cases hfold
    exact .refl _
  | cons first rest ih =>
    rw [List.foldlM_cons] at hfold
    obtain ⟨between, hadd, hrest⟩ := Option.bind_eq_some_iff.mp hfold
    exact (ih hrest).trans (((perm_items_add? hadd).append_left rest).trans List.perm_middle)

/-- An interface has the items that it is made of. -/
theorem perm_items_of_ofItems? {made : List Item} {abi : Interface} (h : ofItems? made = some abi) :
    abi.items.Perm made := by
  have hempty : empty.items = [] := rfl
  have hperm := perm_items_of_foldlM h
  rwa [hempty, List.append_nil] at hperm

/-- An interface in order is made of its items again. -/
theorem ofItems?_items {abi : Interface} (h : abi.IsInOrder) : ofItems? abi.items = some abi := by
  obtain ⟨c, f, r, fs, es, ers⟩ := abi
  have hsingles : ((c.map Item.constructor).toList ++ (f.map Item.fallback).toList ++
      (r.map Item.receive).toList).foldlM add? empty = some ⟨c, f, r, [], [], []⟩ := by
    cases c <;> cases f <;> cases r <;> rfl
  have hfunctions := foldlM_inOrder Function.name Item.function functions
    (fun abi fs => { abi with functions := fs }) (fun _ _ => rfl) (fun _ _ => rfl)
    (fun _ _ _ => rfl) (fun _ => rfl) ⟨c, f, r, [], [], []⟩ fs h.functions
  have hevents := foldlM_inOrder Event.name Item.event events
    (fun abi es => { abi with events := es }) (fun _ _ => rfl) (fun _ _ => rfl)
    (fun _ _ _ => rfl) (fun _ => rfl) ⟨c, f, r, fs, [], []⟩ es h.events
  have herrors := foldlM_inOrder ErrorItem.name Item.error errors
    (fun abi es => { abi with errors := es }) (fun _ _ => rfl) (fun _ _ => rfl)
    (fun _ _ _ => rfl) (fun _ => rfl) ⟨c, f, r, fs, es, []⟩ ers h.errors
  unfold ofItems? items
  rw [List.foldlM_append, List.foldlM_append, List.foldlM_append, hsingles]
  dsimp only [Option.bind_eq_bind, Option.bind_some]
  rw [hfunctions]
  dsimp only [Option.bind_some, List.nil_append]
  rw [hevents]
  exact herrors

end Interface

end RollupInput.Contract
