import RollupInput.Proofs.Declaration.Keyword
import RollupInput.Proofs.Declaration.Reading

/-!
# Names of elementary types

Every name in the table of elementary types is read as the type that the table gives, and can
stand in a declaration.
-/

namespace RollupInput.Declaration

open Abi

/-- Whether two types are the same elementary type. -/
def isSameElementary : AbiType → AbiType → Bool
  | .bool, .bool | .address, .address | .function, .function => true
  | .bytes, .bytes | .string, .string => true
  | .int a, .int b | .uint a, .uint b | .fixedBytes a, .fixedBytes b => a == b
  | _, _ => false

/-- The same elementary type is the same type. -/
theorem eq_of_isSameElementary {t u : AbiType} (h : isSameElementary t u = true) : t = u := by
  cases t <;> cases u <;> first | rfl | cases h | skip
  all_goals
    rw [isSameElementary, beq_iff_eq] at h
    rw [h]

/-- Whether a name is read as a type and can stand in a declaration, as a check that computes. -/
def checksName (e : List Char × AbiType) : Bool :=
  (match elementary e.1 with
    | .ok t => isSameElementary t e.2
    | .error _ => false) &&
  !e.1.isEmpty && e.1.all Text.isIdentifierChar && e.1 != keyword

/-- All names of the table pass the check. -/
theorem all_checksName : elementaryTypes.all checksName = true := by decide +kernel

/-- A name of the table is read as its type, and can stand in a declaration. The type is one without
parts. -/
theorem elementary_of_mem {name : List Char} {t : AbiType} (h : (name, t) ∈ elementaryTypes) :
    elementary name = .ok t ∧ IsTypeName name ∧ KeywordFree name ∧ isSameElementary t t = true := by
  have hcheck := List.all_eq_true.mp all_checksName (name, t) h
  unfold checksName at hcheck
  simp only [Bool.and_eq_true, Bool.not_eq_true', List.isEmpty_eq_false_iff, List.all_eq_true,
    bne_iff_ne] at hcheck
  obtain ⟨⟨⟨htype, hne⟩, hchars⟩, hkeyword⟩ := hcheck
  cases hread : elementary name with
  | error e =>
    rw [hread] at htype
    cases htype
  | ok u =>
    rw [hread] at htype
    obtain rfl := eq_of_isSameElementary htype
    exact ⟨rfl, ⟨hne, fun c hc => .inl (hchars c hc)⟩, .of_run hchars hkeyword, htype⟩

/-- A name of an elementary type is read as that type, and can stand in a declaration. -/
theorem elementary_of_elementaryType? {name : List Char} {t : AbiType}
    (h : elementaryType? name = some t) :
    (elementary name).toOption = some t ∧ IsTypeName name ∧ KeywordFree name := by
  have hmem : (name, t) ∈ elementaryTypes := by
    obtain ⟨front, back, htable, -⟩ := List.lookup_eq_some_iff.mp h
    rw [htable]
    exact List.mem_append_right _ List.mem_cons_self
  obtain ⟨hread, hname, hfree, -⟩ := elementary_of_mem hmem
  exact ⟨by rw [hread]; rfl, hname, hfree⟩

mutual

/-- A reading of names that knows more gives the same parameter. -/
theorem Written.param?_mono {f g : List Char → Option AbiType}
    (hfg : ∀ n t, f n = some t → g n = some t) (w : Written) {p : Param}
    (h : w.param? f = some p) : w.param? g = some p := by
  cases w with
  | elementary type around =>
    rw [Written.param?] at h ⊢
    obtain ⟨t, ht, rfl⟩ := Option.map_eq_some_iff.mp h
    rw [hfg type t ht, Option.map_some]
  | emptyTuple marked gap around =>
    rw [Written.param?] at h ⊢
    exact h
  | tuple marked fields around =>
    rw [Written.param?] at h ⊢
    obtain ⟨components, hcomponents, rfl⟩ := Option.map_eq_some_iff.mp h
    rw [params?_mono hfg fields hcomponents, Option.map_some]

/-- The same for some parameters. -/
theorem params?_mono {f g : List Char → Option AbiType}
    (hfg : ∀ n t, f n = some t → g n = some t) (ws : List Written) {ps : List Param}
    (h : params? f ws = some ps) : params? g ws = some ps := by
  cases ws with
  | nil =>
    rw [params?] at h ⊢
    exact h
  | cons w rest =>
    rw [params?] at h ⊢
    obtain ⟨p, hp, h⟩ := Option.bind_eq_some_iff.mp h
    obtain ⟨ps, hps, rfl⟩ := Option.map_eq_some_iff.mp h
    rw [Written.param?_mono hfg w hp, Option.bind_some, params?_mono hfg rest hps,
      Option.map_some]

end

/-- The names in some parameters are the names in each of them. -/
theorem typeNamesOf_eq (ws : List Written) : typeNamesOf ws = ws.flatMap Written.typeNames := by
  induction ws with
  | nil => rfl
  | cons w rest ih => rw [typeNamesOf, ih, List.flatMap_cons]

mutual

/-- The names in a parameter that is known are known. -/
theorem Written.isSome_typeNames {f : List Char → Option AbiType} (w : Written) {p : Param}
    (h : w.param? f = some p) : ∀ n ∈ w.typeNames, (f n).isSome = true := by
  cases w with
  | elementary type around =>
    rw [Written.param?] at h
    obtain ⟨t, ht, -⟩ := Option.map_eq_some_iff.mp h
    intro n hn
    rw [Written.typeNames] at hn
    rw [List.mem_singleton.mp hn, ht]
    rfl
  | emptyTuple marked gap around =>
    intro n hn
    rw [Written.typeNames] at hn
    cases hn
  | tuple marked fields around =>
    rw [Written.param?] at h
    obtain ⟨components, hcomponents, -⟩ := Option.map_eq_some_iff.mp h
    rw [Written.typeNames]
    exact isSome_typeNamesOf fields hcomponents

/-- The same for some parameters. -/
theorem isSome_typeNamesOf {f : List Char → Option AbiType} (ws : List Written) {ps : List Param}
    (h : params? f ws = some ps) : ∀ n ∈ typeNamesOf ws, (f n).isSome = true := by
  cases ws with
  | nil =>
    intro n hn
    rw [typeNamesOf] at hn
    cases hn
  | cons w rest =>
    rw [params?] at h
    obtain ⟨p, hp, h⟩ := Option.bind_eq_some_iff.mp h
    obtain ⟨ps, hps, -⟩ := Option.map_eq_some_iff.mp h
    intro n hn
    rw [typeNamesOf] at hn
    rcases List.mem_append.mp hn with hn | hn
    · exact Written.isSome_typeNames w hp n hn
    · exact isSome_typeNamesOf rest hps n hn

end

end RollupInput.Declaration
