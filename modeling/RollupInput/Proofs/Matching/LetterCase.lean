import RollupInput.Proofs.Matching.Alike
import RollupInput.Proofs.Text.Hex

/-!
# Letter case

Two values are the same exactly if they have the same normal form: a hexadecimal text in lower case,
and any other text as it is. So sameness is an equivalence, also where a hexadecimal text meets one
that is none. The case of the digits of hexadecimal texts is lost in the normal form; changing it,
in an input or in the values of conditions, leaves the choice at its place.
-/

namespace RollupInput

/-- A text in another or the same letter case of some of its characters. -/
def IsCaseOf (c d : Char) : Prop := d = c ∨ d = Text.lowerAscii c ∨ d = Text.upperAscii c

/-- Whether two values are the same, or become the same when the letter case of the digits of a
hexadecimal text is changed. The `0x` in front stays as it is. -/
inductive IsRecased : String → String → Prop where
  /-- Nothing is changed. -/
  | same (value : String) : IsRecased value value
  /-- The case of digits is changed. -/
  | digits {ds es : List Char} (hds : ∀ d ∈ ds, Text.isHexDigit d = true)
      (h : List.Forall₂ IsCaseOf ds es) :
      IsRecased (String.ofList ('0' :: 'x' :: ds)) (String.ofList ('0' :: 'x' :: es))

/-- Whether two inputs are the same but for the case of hexadecimal digits. -/
structure KnownInput.IsRecased (input input' : KnownInput) : Prop where
  /-- The senders are. -/
  msgSender : Option.Rel RollupInput.IsRecased input.msgSender input'.msgSender
  /-- The applications are, with their identifiers and addresses. -/
  application : Option.Rel (fun app app' : Application =>
    Option.Rel RollupInput.IsRecased app.id app'.id ∧
      Option.Rel RollupInput.IsRecased app.address app'.address)
    input.application input'.application

/-- Whether two conditions are the same but for the case of hexadecimal digits in their values. -/
structure Condition.IsRecased (c d : Condition) : Prop where
  /-- They look at the same field. -/
  field_eq : c.field = d.field
  /-- They compare alike. -/
  operator_eq : c.operator = d.operator
  /-- Their values are the same but for the case of digits. -/
  value : RollupInput.IsRecased c.value d.value

/-! ## Digits -/

/-- A hexadecimal digit is one in both cases, and has one lower case. -/
theorem lowerAscii_of_isHexDigit {c : Char} (h : Text.isHexDigit c = true) :
    Text.isHexDigit (Text.lowerAscii c) = true ∧ Text.isHexDigit (Text.upperAscii c) = true ∧
      Text.lowerAscii (Text.lowerAscii c) = Text.lowerAscii c ∧
      Text.lowerAscii (Text.upperAscii c) = Text.lowerAscii c := by
  have hascii : ∀ n < 128, Text.isHexDigit (Char.ofNat n) = true →
      Text.isHexDigit (Text.lowerAscii (Char.ofNat n)) = true ∧
        Text.isHexDigit (Text.upperAscii (Char.ofNat n)) = true ∧
        Text.lowerAscii (Text.lowerAscii (Char.ofNat n)) = Text.lowerAscii (Char.ofNat n) ∧
        Text.lowerAscii (Text.upperAscii (Char.ofNat n)) = Text.lowerAscii (Char.ofNat n) := by
    decide
  have hc := hascii c.toNat (Text.Hex.toNat_of_isHexDigit h)
  rw [Char.ofNat_toNat] at hc
  exact hc h

/-- In another case a digit is a digit, with the same lower case. -/
theorem IsCaseOf.of_isHexDigit {c d : Char} (h : IsCaseOf c d) (hc : Text.isHexDigit c = true) :
    Text.isHexDigit d = true ∧ Text.lowerAscii c = Text.lowerAscii d := by
  obtain ⟨hlower, hupper, heqLower, heqUpper⟩ := lowerAscii_of_isHexDigit hc
  rcases h with rfl | rfl | rfl
  · exact ⟨hc, rfl⟩
  · exact ⟨hlower, heqLower.symm⟩
  · exact ⟨hupper, heqUpper.symm⟩

/-- A hexadecimal text is `0x` in front of digits. -/
theorem isHexText_iff {cs : List Char} :
    isHexText cs = true ↔ ∃ ds, cs = '0' :: 'x' :: ds ∧ ∀ d ∈ ds, Text.isHexDigit d = true := by
  unfold isHexText Text.after?
  constructor
  · intro h
    split at h
    · rename_i digits hafter
      split at hafter
      · rename_i hprefix
        obtain ⟨ds, rfl⟩ := List.isPrefixOf_iff_prefix.mp hprefix
        cases hafter
        exact ⟨ds, rfl, List.all_eq_true.mp h⟩
      · cases hafter
    · cases h
  · rintro ⟨ds, rfl, hds⟩
    exact List.all_eq_true.mpr hds

/-! ## Normal forms -/

/-- The normal form of a value: a hexadecimal text in lower case, any other text as it is. -/
def normalValue (value : String) : List Char :=
  if isHexText value.toList then value.toList.map Text.lowerAscii else value.toList

/-- A hexadecimal text is one in lower case. -/
theorem isHexText_map_lowerAscii {cs : List Char} (h : isHexText cs = true) :
    isHexText (cs.map Text.lowerAscii) = true := by
  obtain ⟨ds, rfl, hds⟩ := isHexText_iff.mp h
  refine isHexText_iff.mpr ⟨ds.map Text.lowerAscii, rfl, List.forall_mem_map.mpr fun d hd => ?_⟩
  exact (lowerAscii_of_isHexDigit (hds d hd)).1

/-- The normal form of a value is a hexadecimal text exactly if the value is one. -/
theorem isHexText_normalValue (value : String) :
    isHexText (normalValue value) = isHexText value.toList := by
  unfold normalValue
  cases h : isHexText value.toList with
  | false => rw [if_neg Bool.false_ne_true, h]
  | true => rw [if_pos rfl, isHexText_map_lowerAscii h]

/-- Values are the same exactly if their normal forms are. -/
theorem sameValue_iff {actual expected : String} :
    sameValue actual expected = true ↔ normalValue actual = normalValue expected := by
  have hhex : normalValue actual = normalValue expected →
      isHexText actual.toList = isHexText expected.toList := by
    intro h
    rw [← isHexText_normalValue, h, isHexText_normalValue]
  have hlist : actual = expected ↔ actual.toList = expected.toList := String.toList_inj.symm
  unfold sameValue
  -- Values of which only one is a hexadecimal text differ, and so do their normal forms.
  cases hactual : isHexText actual.toList <;> cases hexpected : isHexText expected.toList
  all_goals rw [hactual, hexpected] at hhex
  · simp [normalValue, hactual, hexpected, hlist]
  · refine iff_of_false ?_ fun h => by cases hhex h
    rw [Bool.false_and, if_neg Bool.false_ne_true, beq_iff_eq]
    rintro rfl
    rw [hactual] at hexpected
    cases hexpected
  · refine iff_of_false ?_ fun h => by cases hhex h
    rw [Bool.and_false, if_neg Bool.false_ne_true, beq_iff_eq]
    rintro rfl
    rw [hactual] at hexpected
    cases hexpected
  · simp [normalValue, hactual, hexpected]

/-- Sameness of values is an equivalence. -/
theorem sameValue_equivalence : Equivalence fun a b => sameValue a b = true where
  refl _ := sameValue_iff.mpr rfl
  symm h := sameValue_iff.mpr (sameValue_iff.mp h).symm
  trans h h' := sameValue_iff.mpr ((sameValue_iff.mp h).trans (sameValue_iff.mp h'))

/-- The case of hexadecimal digits is lost in the normal form. -/
theorem normalValue_of_isRecased {value value' : String} (h : IsRecased value value') :
    normalValue value = normalValue value' := by
  cases h with
  | same => rfl
  | @digits ds es hds h =>
    have hes : (∀ e ∈ es, Text.isHexDigit e = true) ∧
        ds.map Text.lowerAscii = es.map Text.lowerAscii := by
      induction h with
      | nil => exact ⟨List.forall_mem_nil _, rfl⟩
      | cons hcase _ ih =>
        obtain ⟨hd, hrest⟩ := List.forall_mem_cons.mp hds
        obtain ⟨he, hlower⟩ := hcase.of_isHexDigit hd
        obtain ⟨hes, hmap⟩ := ih hrest
        refine ⟨List.forall_mem_cons.mpr ⟨he, hes⟩, ?_⟩
        rw [List.map_cons, List.map_cons, hlower, hmap]
    have hleft : isHexText ('0' :: 'x' :: ds) = true := isHexText_iff.mpr ⟨ds, rfl, hds⟩
    have hright : isHexText ('0' :: 'x' :: es) = true := isHexText_iff.mpr ⟨es, rfl, hes.1⟩
    unfold normalValue
    rw [String.toList_ofList, String.toList_ofList, if_pos hleft, if_pos hright]
    simp only [List.map_cons, hes.2]

/-! ## The choice -/

/-- What is read of a field is the same but for the case of digits. -/
theorem KnownInput.read_of_isRecased {input input' : KnownInput} (h : input.IsRecased input')
    (field : InputField) :
    Option.Rel RollupInput.IsRecased (input.read field) (input'.read field) := by
  have haddress : Option.Rel RollupInput.IsRecased (input.application.bind Application.address)
      (input'.application.bind Application.address) := by
    have happ := h.application
    generalize input.application = left at happ ⊢
    generalize input'.application = right at happ ⊢
    cases happ with
    | none => exact .none
    | some happ => exact happ.2
  cases field with
  | msgSender => exact h.msgSender
  | applicationId => exact haddress
  | applicationAddress => exact haddress

/-- A condition holds alike if only the case of digits is changed, in it and in the input. -/
theorem Condition.holds_of_isRecased {input input' : KnownInput} (h : input.IsRecased input')
    (c d : Condition) (hcd : c.IsRecased d) : c.holds input = d.holds input' := by
  have hread := KnownInput.read_of_isRecased h c.field
  rw [Bool.eq_iff_iff]
  unfold Condition.holds
  rw [← hcd.field_eq, ← hcd.operator_eq]
  cases c.operator with
  | equals =>
    generalize input.read c.field = left at hread ⊢
    generalize input'.read c.field = right at hread ⊢
    cases hread with
    | none => exact Iff.rfl
    | some hvalue =>
      dsimp only
      rw [sameValue_iff, sameValue_iff, normalValue_of_isRecased hvalue,
        normalValue_of_isRecased hcd.value]

namespace Specification

variable {input input' : Option KnownInput} {specs specs' : List Specification}

/-- Sameness of values is an equivalence, and the choice takes no notice of the letter case of
hexadecimal digits: when it is changed in the fields of the input and in the values of conditions,
the specification at the same place is chosen, or none in both cases. -/
theorem letter_case_ignored (hinput : Option.Rel KnownInput.IsRecased input input')
    (hspecs : List.Forall₂ (Alike Condition.IsRecased) specs specs') :
    (Equivalence fun a b => sameValue a b = true) ∧
      choiceIndex? input specs = choiceIndex? input' specs' ∧
      choose? input specs = (choiceIndex? input specs).bind (specs[·]?) ∧
      choose? input' specs' = (choiceIndex? input specs).bind (specs'[·]?) := by
  have hplace : choiceIndex? input specs = choiceIndex? input' specs' :=
    choiceIndex?_of_alike (fun _ _ => Condition.holds_of_isRecased) hinput hspecs
  refine ⟨sameValue_equivalence, hplace, choose?_eq_bind_choiceIndex? input specs, ?_⟩
  rw [hplace]
  exact choose?_eq_bind_choiceIndex? input' specs'

/-- A specification for the inputs of one sender. -/
def onlyFrom (sender : String) : Specification := whereAll [⟨.msgSender, .equals, sender⟩]

/-- With the sender written in upper case, and `0x0c` too, it is still the second of two
specifications that is chosen. -/
theorem upperCase_sender_chosen :
    choiceIndex? (some ⟨some "0xab", none⟩) [onlyFrom "0x0c", onlyFrom "0xaB"] =
        choiceIndex? (some ⟨some "0xAB", none⟩) [onlyFrom "0x0C", onlyFrom "0xaB"] ∧
      choiceIndex? (some ⟨some "0xAB", none⟩) [onlyFrom "0x0C", onlyFrom "0xaB"] = some 1 := by
  have hsender : IsRecased "0xab" "0xAB" := @IsRecased.digits ['a', 'b'] ['A', 'B']
    (List.all_eq_true.mp rfl) (.cons (.inr (.inr rfl)) (.cons (.inr (.inr rfl)) .nil))
  have hother : IsRecased "0x0c" "0x0C" := @IsRecased.digits ['0', 'c'] ['0', 'C']
    (List.all_eq_true.mp rfl) (.cons (.inl rfl) (.cons (.inr (.inr rfl)) .nil))
  have hspec : ∀ {value value'}, IsRecased value value' →
      (onlyFrom value).Alike Condition.IsRecased (onlyFrom value') := by
    intro value value' h
    exact .some (.cons ⟨rfl, .cons ⟨rfl, rfl, h⟩ .nil⟩ .nil)
  have hinput : Option.Rel KnownInput.IsRecased (some ⟨some "0xab", none⟩)
      (some ⟨some "0xAB", none⟩) := .some ⟨.some hsender, .none⟩
  obtain ⟨-, hplace, -, -⟩ := letter_case_ignored hinput
    (.cons (hspec hother) (.cons (hspec (.same "0xaB")) .nil))
  refine ⟨hplace, ?_⟩
  decide +kernel

end Specification

end RollupInput
