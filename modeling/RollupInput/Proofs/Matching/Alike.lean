import Mathlib.Data.List.Forall2
import RollupInput.Proofs.Matching.Choice

/-!
# Choices among specifications that are alike

Two lists of specifications are alike if they have the same predicates but for conditions that are
related one for one. Where related conditions hold alike, one for one input and the other for
another, the two choices fall on the same place, whatever else the specifications hold. The lemmas
go up along the structure: conditions, predicates, specifications, lists.
-/

namespace RollupInput

/-- Whether two predicates have the same operator, and conditions that are related one for one. -/
structure Predicate.Alike (R : Condition → Condition → Prop) (p q : Predicate) : Prop where
  /-- The operators are the same. -/
  operator_eq : p.operator = q.operator
  /-- The conditions are related in order. -/
  conditions : List.Forall₂ R p.conditions q.conditions

/-- Whether two specifications have predicates that are alike one for one, or none at all. -/
def Specification.Alike (R : Condition → Condition → Prop) (s t : Specification) : Prop :=
  Option.Rel (List.Forall₂ (Predicate.Alike R)) s.conditionals t.conditionals

/-- A specification is like itself if conditions are related to themselves. -/
theorem Specification.alike_refl {R : Condition → Condition → Prop} (hR : ∀ c, R c c)
    (s : Specification) : s.Alike R s := by
  unfold Specification.Alike
  cases s.conditionals with
  | none => exact .none
  | some predicates =>
    refine .some (List.forall₂_same.mpr fun p _ => ⟨rfl, ?_⟩)
    exact List.forall₂_same.mpr fun c _ => hR c

/-- What is the same for members that are related is the same for lists of them. -/
theorem map_eq_of_forall₂ {α β γ : Type} {R : α → β → Prop} {f : α → γ} {g : β → γ} {xs : List α}
    {ys : List β} (h : List.Forall₂ R xs ys) (hR : ∀ x y, R x y → f x = g y) :
    xs.map f = ys.map g := by
  have hmap : List.Forall₂ Eq (xs.map f) (ys.map g) :=
    List.forall₂_map_left_iff.mpr (List.forall₂_map_right_iff.mpr (h.imp hR))
  rwa [List.forall₂_eq_eq_eq] at hmap

section

variable {R : Condition → Condition → Prop} {input input' : KnownInput}

/-- Predicates that are alike hold alike if related conditions do. -/
theorem Predicate.holds_of_alike (hR : ∀ c d, R c d → c.holds input = d.holds input')
    {p q : Predicate} (h : p.Alike R q) : p.holds input = q.holds input' := by
  have hmap := map_eq_of_forall₂ h.conditions hR
  have hall := congrArg (List.all · id) hmap
  have hany := congrArg (List.any · id) hmap
  have hempty := congrArg List.isEmpty hmap
  simp only [List.all_map, List.any_map, List.isEmpty_map, Function.id_comp] at hall hany hempty
  unfold Predicate.holds
  rw [hempty, h.operator_eq, hall, hany]

/-- Specifications that are alike match alike if related conditions hold alike. -/
theorem Specification.matches_of_alike (hR : ∀ c d, R c d → c.holds input = d.holds input')
    {s t : Specification} (h : s.Alike R t) : s.matches input = t.matches input' := by
  unfold Specification.Alike at h
  unfold Specification.matches
  generalize s.conditionals = left at h ⊢
  generalize t.conditionals = right at h ⊢
  cases h with
  | none => rfl
  | some hpredicates =>
    have hmap := map_eq_of_forall₂ hpredicates fun _ _ => Predicate.holds_of_alike hR
    have hany := congrArg (List.any · fun holds => holds) hmap
    simpa only [List.any_map, Function.comp_def, Option.getD_some] using hany

end

namespace Specification

/-- A specification for the inputs that meet all of some conditions. -/
def whereAll (conditions : List Condition) : Specification where
  id := none
  name := ""
  timestamp := 0
  version := 0
  mode := .params ⟨[], none, none⟩
  conditionals := some [⟨.and, conditions⟩]

/-- The place of the specification that is chosen among some: the first that is chosen as the only
one. -/
def choiceIndex? (input : Option KnownInput) (specs : List Specification) : Option Nat :=
  specs.findIdx? fun s => (choose? input [s]).isSome

/-- The only specification is chosen exactly if it matches. -/
theorem isSome_choose?_singleton (input : KnownInput) (s : Specification) :
    (choose? (some input) [s]).isSome = s.matches input := by
  rw [choose?_eq_find?]
  cases h : s.matches input <;> simp [h]

/-- The place of the choice is that of the first specification that matches. -/
theorem choiceIndex?_eq_findIdx? (input : KnownInput) (specs : List Specification) :
    choiceIndex? (some input) specs = specs.findIdx? (·.matches input) := by
  unfold choiceIndex?
  simp only [isSome_choose?_singleton]

/-- Without an input nothing is chosen. -/
theorem choiceIndex?_none (specs : List Specification) : choiceIndex? none specs = none :=
  List.findIdx?_eq_none_iff.mpr fun _ _ => rfl

/-- The choice is the specification at its place. -/
theorem choose?_eq_bind_choiceIndex? (input : Option KnownInput) (specs : List Specification) :
    choose? input specs = (choiceIndex? input specs).bind (specs[·]?) := by
  cases input with
  | none =>
    rw [choiceIndex?_none]
    rfl
  | some input =>
    rw [choose?_eq_find?, choiceIndex?_eq_findIdx?, List.find?_eq_bind_findIdx?_getElem?]

/-- For inputs that are related the same place is chosen among specifications that are alike, if
related conditions hold alike for related inputs. -/
theorem choiceIndex?_of_alike {S : KnownInput → KnownInput → Prop} {R : Condition → Condition → Prop}
    (hR : ∀ i j, S i j → ∀ c d, R c d → c.holds i = d.holds j) {input input' : Option KnownInput}
    (hinput : Option.Rel S input input') {specs specs' : List Specification}
    (hspecs : List.Forall₂ (Alike R) specs specs') :
    choiceIndex? input specs = choiceIndex? input' specs' := by
  cases hinput with
  | none => rw [choiceIndex?_none, choiceIndex?_none]
  | some hij =>
    have hmap := map_eq_of_forall₂ hspecs fun _ _ => matches_of_alike (hR _ _ hij)
    have hplace := congrArg (List.findIdx? fun holds => holds) hmap
    rw [choiceIndex?_eq_findIdx?, choiceIndex?_eq_findIdx?]
    simpa only [List.findIdx?_map, Function.comp_def] using hplace

end Specification

end RollupInput
