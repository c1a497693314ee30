import RollupInput.Proofs.Json.NumberText
import RollupInput.Specification.Json

/-!
# Modes of written specifications

A written specification has a mode exactly if its mode is a string that names one. No other value
has a text that is taken for a name, although the texts of all values are compared with the names.
-/

namespace RollupInput.Specification

/-- Whether the mode of a written specification is one of the two names, as a string. -/
def NamesMode (v : Json) : Prop :=
  v.member? "mode" = some (.str "abi_params") ∨ v.member? "mode" = some (.str "json_abi")

/-- The name of a mode starts with a letter of its own and has an underscore. -/
theorem first_of_mem_modeNames {name : String} (h : name ∈ modeNames) :
    (name.toList.head? = some 'a' ∨ name.toList.head? = some 'j') ∧ '_' ∈ name.toList := by
  unfold modeNames at h
  rcases List.mem_cons.mp h with rfl | h
  · exact ⟨.inl rfl, by decide⟩
  · obtain rfl := List.mem_singleton.mp h
    exact ⟨.inr rfl, by decide⟩

/-- The text of a value that is no string is not the name of a mode. -/
theorem text_notMem_modeNames {v : Json} (h : ∀ s, v ≠ .str s) : v.text ∉ modeNames := by
  intro hmem
  obtain ⟨hfirst, hunderscore⟩ := first_of_mem_modeNames hmem
  have hchars : v.text.toList = Json.compact v := String.toList_ofList
  rw [hchars] at hfirst hunderscore
  cases v with
  | str s => exact h s rfl
  | num n =>
    rw [Json.compact] at hunderscore
    have hnumber := Json.isNumberChar_of_mem_text hunderscore
    exact absurd hnumber (by decide)
  | null => simp [Json.compact] at hfirst
  | bool b => cases b <;> simp [Json.compact] at hfirst
  | arr items => simp [Json.compact] at hfirst
  | obj members => simp [Json.compact, Json.braceOpen] at hfirst

/-- The mode is a known one exactly if it is named by a string. -/
theorem contains_modeText_iff (v : Json) :
    modeNames.contains (modeText v) = true ↔ NamesMode v := by
  unfold modeText NamesMode
  rw [List.contains_iff_mem]
  cases v.member? "mode" with
  | none => simp [modeNames]
  | some w =>
    cases hw : w with
    | str s => simp [modeNames]
    | _ =>
      subst hw
      refine iff_of_false (text_notMem_modeNames (by rintro s ⟨⟩)) (by simp)

/-- A specification without a mode, or with an unknown one, is refused for its mode. -/
theorem ofJson_of_not_namesMode {v : Json} (h : ¬NamesMode v) :
    ofJson v = .error (.unknownMode (modeText v)) := by
  have hmode : ¬modeNames.contains (modeText v) = true := by
    rwa [contains_modeText_iff]
  unfold ofJson
  dsimp only
  rw [if_neg hmode]

/-- A specification with a mode is refused for its shape only. -/
theorem malformed_of_ofJson_error {v : Json} (h : NamesMode v) {e : DecodeFault}
    (herror : ofJson v = .error e) : ∃ reason, e = .malformedSpecification reason := by
  have hmode := (contains_modeText_iff v).mpr h
  unfold ofJson at herror
  dsimp only at herror
  rw [if_pos hmode] at herror
  cases hread : readMembers (modeText v) v with
  | ok spec =>
    rw [hread] at herror
    cases herror
  | error cause =>
    rw [hread] at herror
    cases herror
    exact ⟨cause.message, rfl⟩

/-- A specification is refused for its mode exactly if it has none. -/
theorem ofJson_unknownMode_iff (v : Json) :
    (∃ mode, ofJson v = .error (.unknownMode mode)) ↔ ¬NamesMode v := by
  constructor
  · rintro ⟨mode, herror⟩ h
    obtain ⟨reason, hreason⟩ := malformed_of_ofJson_error h herror
    cases hreason
  · intro h
    exact ⟨modeText v, ofJson_of_not_namesMode h⟩

end RollupInput.Specification
