import RollupInput.Matching

/-!
# The first specification that is for an input

A specification is for an input if one of its predicates has conditions and they are met in the way
that its operator asks for; a condition is met only if its field is known. The choice among some
specifications is the first that is for the input. So it takes no notice of the specifications
behind it, and neither the test for an input of which nothing is known nor the one for a
specification without predicates makes a difference: both leave out only what has no predicate that
is met.
-/

namespace RollupInput

/-- Whether a field of an input is known to have a value. The identifier of the application is
another name of its address; what stands under it is the value of no field. -/
def KnownInput.Has (input : KnownInput) : InputField → String → Prop
  | .msgSender, value => input.msgSender = some value
  | .applicationAddress, value | .applicationId, value =>
    ∃ app, input.application = some app ∧ app.address = some value

/-- Whether a condition is met: its field is known, with the value of the condition. -/
def Condition.IsMet (c : Condition) (input : KnownInput) : Prop :=
  ∃ actual, input.Has c.field actual ∧ sameValue actual c.value = true

/-- Whether a predicate is met: it has conditions, and all or some of them are met. -/
def Predicate.IsMet (p : Predicate) (input : KnownInput) : Prop :=
  p.conditions ≠ [] ∧
    match p.operator with
    | .and => ∀ c ∈ p.conditions, c.IsMet input
    | .or => ∃ c ∈ p.conditions, c.IsMet input

namespace Specification

/-- Whether a specification is for an input: it has a predicate that is met. -/
def IsFor (s : Specification) (input : KnownInput) : Prop :=
  ∃ predicates, s.conditionals = some predicates ∧ ∃ p ∈ predicates, p.IsMet input

/-- Whether the specification at a place is the first that is for an input. -/
structure IsFirstFor (input : KnownInput) (specs : List Specification) (place : Nat)
    (s : Specification) : Prop where
  /-- It stands at the place. -/
  stands : specs[place]? = some s
  /-- It is for the input. -/
  isFor : s.IsFor input
  /-- None in front of it is for the input. -/
  least : ∀ earlier < place, ∀ t, specs[earlier]? = some t → ¬t.IsFor input

end Specification

/-! ## What holds -/

/-- What is read of a field is the value that it has. -/
theorem KnownInput.read_eq_some_iff {input : KnownInput} {field : InputField} {value : String} :
    input.read field = some value ↔ input.Has field value := by
  cases field with
  | msgSender => exact Iff.rfl
  | applicationId => exact Option.bind_eq_some_iff
  | applicationAddress => exact Option.bind_eq_some_iff

/-- Something is known of an input of which a field is known. -/
theorem KnownInput.isEmpty_of_has {input : KnownInput} {field : InputField} {value : String}
    (h : input.Has field value) : input.isEmpty = false := by
  have haddress : (∃ app, input.application = some app ∧ app.address = some value) →
      input.isEmpty = false := by
    rintro ⟨app, happ, hvalue⟩
    unfold KnownInput.isEmpty
    rw [happ]
    simp [hvalue]
  cases field with
  | msgSender =>
    have hsender : input.msgSender = some value := h
    unfold KnownInput.isEmpty
    rw [hsender]
    rfl
  | applicationId => exact haddress h
  | applicationAddress => exact haddress h

/-- A condition holds exactly if it is met. -/
theorem Condition.holds_iff {c : Condition} {input : KnownInput} :
    c.holds input = true ↔ c.IsMet input := by
  unfold Condition.holds Condition.IsMet
  simp only [← KnownInput.read_eq_some_iff]
  cases c.operator with
  | equals =>
    cases input.read c.field with
    | none => simp
    | some actual => simp

/-- A predicate holds exactly if it is met. -/
theorem Predicate.holds_iff {p : Predicate} {input : KnownInput} :
    p.holds input = true ↔ p.IsMet input := by
  unfold Predicate.holds Predicate.IsMet
  rw [Bool.and_eq_true, Bool.not_eq_true', List.isEmpty_eq_false_iff]
  cases p.operator with
  | and => simp only [List.all_eq_true, Condition.holds_iff]
  | or => simp only [List.any_eq_true, Condition.holds_iff]

namespace Specification

variable {input : KnownInput} {s : Specification} {specs : List Specification}

/-- A specification matches an input exactly if it is for the input. -/
theorem matches_iff : s.matches input = true ↔ s.IsFor input := by
  unfold Specification.matches IsFor
  cases s.conditionals with
  | none => simp
  | some predicates => simp [Predicate.holds_iff]

/-! ## What is left out -/

/-- A specification that matches has predicates. -/
theorem isSelectable_of_matches (h : s.matches input = true) : s.isSelectable = true := by
  obtain ⟨predicates, hsome, p, hp, -⟩ := matches_iff.mp h
  unfold isSelectable
  rw [hsome]
  cases predicates with
  | nil => cases hp
  | cons first rest => rfl

/-- The input of a predicate that is met is not one of which nothing is known. -/
theorem isEmpty_of_matches (h : s.matches input = true) : input.isEmpty = false := by
  obtain ⟨-, -, p, -, hne, hmet⟩ := matches_iff.mp h
  obtain ⟨c, -, actual, hhas, -⟩ : ∃ c ∈ p.conditions, c.IsMet input := by
    cases hop : p.operator with
    | and =>
      rw [hop] at hmet
      obtain ⟨c, hc⟩ := List.exists_mem_of_ne_nil _ hne
      exact ⟨c, hc, hmet c hc⟩
    | or =>
      rw [hop] at hmet
      exact hmet
  exact KnownInput.isEmpty_of_has hhas

/-- The choice is the first specification that matches; what is left out beforehand does not. -/
theorem choose?_eq_find? (input : KnownInput) (specs : List Specification) :
    choose? (some input) specs = specs.find? (·.matches input) := by
  have htest : (fun s : Specification => s.isSelectable && s.matches input) = (·.matches input) := by
    funext s
    cases h : s.matches input with
    | false => rw [Bool.and_false]
    | true => rw [isSelectable_of_matches h, Bool.true_and]
  rw [choose?, htest]
  cases hempty : input.isEmpty with
  | false => rw [if_neg Bool.false_ne_true]
  | true =>
    rw [if_pos rfl, eq_comm, List.find?_eq_none]
    intro s _ hmatches
    rw [isEmpty_of_matches hmatches] at hempty
    cases hempty

/-- Looking for the first specification that matches is looking for the first one that is for the
input. -/
theorem find?_matches_eq_some_iff :
    specs.find? (·.matches input) = some s ↔ ∃ place, IsFirstFor input specs place s := by
  rw [List.find?_eq_some_iff_getElem]
  constructor
  · rintro ⟨hs, place, hlt, hplace, hbefore⟩
    refine ⟨place, List.getElem?_eq_some_iff.mpr ⟨hlt, hplace⟩, matches_iff.mp hs, ?_⟩
    intro earlier hearlier t ht hfor
    obtain ⟨_, hstands⟩ := List.getElem?_eq_some_iff.mp ht
    have hnot := hbefore earlier hearlier
    rw [hstands, matches_iff.mpr hfor] at hnot
    cases hnot
  · rintro ⟨place, hplace, hfor, hleast⟩
    obtain ⟨hlt, heq⟩ := List.getElem?_eq_some_iff.mp hplace
    refine ⟨matches_iff.mpr hfor, place, hlt, heq, fun earlier hearlier => ?_⟩
    rw [Bool.not_eq_true', Bool.eq_false_iff]
    intro hmatches
    exact hleast earlier hearlier _ (List.getElem?_eq_getElem _) (matches_iff.mp hmatches)

/-- The specification that is chosen for an input is the one at the least place that is for it, and
none is chosen exactly if none is for it. The choice is what plain looking for a specification that
matches gives, so nothing that could match is left out beforehand. A choice that there is stays the
same with more specifications behind it, and without one the choice is among these. -/
theorem chosen_is_first (input : KnownInput) (specs more : List Specification) :
    (∀ s, choose? (some input) specs = some s ↔ ∃ place, IsFirstFor input specs place s) ∧
      (choose? (some input) specs = none ↔ ∀ s ∈ specs, ¬s.IsFor input) ∧
      choose? (some input) specs = specs.find? (·.matches input) ∧
      choose? (some input) (specs ++ more) =
        (choose? (some input) specs).or (choose? (some input) more) := by
  rw [choose?_eq_find?, choose?_eq_find?, choose?_eq_find?]
  refine ⟨fun s => find?_matches_eq_some_iff, ?_, rfl, List.find?_append⟩
  simp only [List.find?_eq_none, matches_iff]

end Specification

end RollupInput
