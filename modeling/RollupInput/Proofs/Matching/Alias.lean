import RollupInput.Proofs.Matching.Alike

/-!
# The identifier of an application

A condition on the identifier of the application looks at its address, and no condition looks at the
identifier itself. So inputs that differ only in it have the same choice; among them are an input of
which nothing is known and one of which only the identifier is, though the test at the start takes
only the first to be empty. For the same reason the two names of the field can stand for each other
in conditions.
-/

namespace RollupInput

/-- Whether two inputs agree on the sender and on the address of the application, and so in all but
its identifier. Without an application there is no address. -/
structure KnownInput.AgreesButId (input input' : KnownInput) : Prop where
  /-- The senders are the same. -/
  msgSender_eq : input.msgSender = input'.msgSender
  /-- The addresses are the same. -/
  address_eq : input.application.bind Application.address =
    input'.application.bind Application.address

/-- Whether one condition is another one, or says address where the other says identifier. -/
def Condition.Renames (c d : Condition) : Prop :=
  d = c ∨ c.field = .applicationId ∧ d = { c with field := .applicationAddress }

/-- Inputs that agree in all but the identifier are read alike. -/
theorem KnownInput.AgreesButId.read_eq {input input' : KnownInput} (h : input.AgreesButId input')
    (field : InputField) : input.read field = input'.read field := by
  cases field with
  | msgSender => exact h.msgSender_eq
  | applicationId => exact h.address_eq
  | applicationAddress => exact h.address_eq

/-- A condition holds alike for inputs that agree in all but the identifier. -/
theorem KnownInput.AgreesButId.holds_eq {input input' : KnownInput} (h : input.AgreesButId input')
    (c : Condition) : c.holds input = c.holds input' := by
  unfold Condition.holds
  rw [h.read_eq]

/-- A condition on the identifier holds exactly if the one on the address does. -/
theorem Condition.Renames.holds_eq {c d : Condition} (h : c.Renames d) (input : KnownInput) :
    c.holds input = d.holds input := by
  rcases h with rfl | ⟨hfield, rfl⟩
  · rfl
  · unfold Condition.holds
    rw [hfield]
    rfl

namespace Specification

variable {input input' : Option KnownInput} {specs specs' : List Specification}

/-- The identifier of an application is only another name of its address. Inputs that agree on the
sender and on the address have the same choice, whatever their identifiers are, and saying address
instead of identifier in any conditions leaves the choice at its place. -/
theorem identifier_is_alias (hinput : Option.Rel KnownInput.AgreesButId input input')
    (hspecs : List.Forall₂ (Alike Condition.Renames) specs specs') :
    choose? input specs = choose? input' specs ∧
      choiceIndex? input specs = choiceIndex? input specs' ∧
      choose? input specs = (choiceIndex? input specs).bind (specs[·]?) ∧
      choose? input specs' = (choiceIndex? input specs).bind (specs'[·]?) := by
  have hsame : choiceIndex? input specs = choiceIndex? input' specs := by
    refine choiceIndex?_of_alike (R := Eq) ?_ hinput ?_
    · rintro i j hij c _ rfl
      exact hij.holds_eq c
    · exact List.forall₂_same.mpr fun s _ => alike_refl (fun _ => rfl) s
  have hrenamed : choiceIndex? input specs = choiceIndex? input specs' := by
    refine choiceIndex?_of_alike (S := Eq) ?_ ?_ hspecs
    · rintro i _ rfl c d hcd
      exact hcd.holds_eq i
    · cases input with
      | none => exact .none
      | some input => exact .some rfl
  refine ⟨?_, hrenamed, choose?_eq_bind_choiceIndex? input specs, ?_⟩
  · rw [choose?_eq_bind_choiceIndex?, hsame, ← choose?_eq_bind_choiceIndex?]
  · rw [hrenamed]
    exact choose?_eq_bind_choiceIndex? input specs'

/-- An input for an application at `0xab`. -/
def addressed (id : Option String) : KnownInput := ⟨none, some ⟨id, some "0xab"⟩⟩

/-- A condition on the identifier is met by an application with the address that it asks for,
whether that has another identifier or none. -/
theorem identifier_not_read :
    choose? (some (addressed (some "7"))) [whereAll [⟨.applicationId, .equals, "0xab"⟩]] =
        choose? (some (addressed none)) [whereAll [⟨.applicationId, .equals, "0xab"⟩]] ∧
      choiceIndex? (some (addressed (some "7")))
        [whereAll [⟨.applicationId, .equals, "0xab"⟩]] = some 0 := by
  have hinput : Option.Rel KnownInput.AgreesButId (some (addressed (some "7")))
      (some (addressed none)) := .some ⟨rfl, rfl⟩
  have hspecs : List.Forall₂ (Alike Condition.Renames)
      [whereAll [⟨.applicationId, .equals, "0xab"⟩]]
      [whereAll [⟨.applicationAddress, .equals, "0xab"⟩]] :=
    .cons (.some (.cons ⟨rfl, .cons (.inr ⟨rfl, rfl⟩) .nil⟩ .nil)) .nil
  obtain ⟨hchoice, hplace, -, -⟩ := identifier_is_alias hinput hspecs
  refine ⟨hchoice, hplace.trans ?_⟩
  decide +kernel

end Specification

end RollupInput
