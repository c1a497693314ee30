import Mathlib.Data.List.Forall2
import RollupInput.Abi.Param
import RollupInput.Abi.TypeText
import RollupInput.Proofs.Abi.Label
import RollupInput.Proofs.Abi.Success

/-!
# Parameters that are decoded alike

Two parameters agree if they have one type and one name and put the same names on the fields of
every value that is nested like the type. Lists of such parameters decode all data alike, failures
included. Tuples of fields that agree agree, and a tuple without any names agrees with one of which
no fields are known; array suffixes change nothing about either.
-/

namespace RollupInput.Abi

/-- Whether two lists of components put the same names on the fields of the values of a type. -/
def LabelAlike (t : AbiType) (ps qs : List Param) : Prop :=
  ∀ v, HasShape t v → label ps v = label qs v

/-- Whether two parameters are decoded alike. -/
structure Param.Agrees (p q : Param) : Prop where
  /-- They have one type. -/
  type_eq : p.type = q.type
  /-- They have one name. -/
  name_eq : p.nonBlankName? = q.nonBlankName?
  /-- Their components put the same names on fields. -/
  alike : LabelAlike q.type p.components q.components

variable {ps qs : List Param}

/-- Parameters that agree have the same types. -/
theorem map_type_of_agree (h : List.Forall₂ Param.Agrees ps qs) :
    ps.map Param.type = qs.map Param.type := by
  induction h with
  | nil => rfl
  | cons hp _ ih => rw [List.map_cons, List.map_cons, hp.type_eq, ih]

/-- Parameters that agree have the same names. -/
theorem map_name_of_agree (h : List.Forall₂ Param.Agrees ps qs) :
    ps.map Param.nonBlankName? = qs.map Param.nonBlankName? := by
  induction h with
  | nil => rfl
  | cons hp _ ih => rw [List.map_cons, List.map_cons, hp.name_eq, ih]

/-- An array suffix changes nothing about the names of fields. -/
theorem LabelAlike.suffixed {t : AbiType} (h : LabelAlike t ps qs) (s : Suffix) :
    LabelAlike (t.suffixed s) ps qs := by
  have harray (vs : List Value) (hvs : ∀ v ∈ vs, HasShape t v) :
      label ps (.array vs) = label qs (.array vs) := by
    rw [label, label, labelAll_eq_map, labelAll_eq_map]
    exact congrArg _ (List.map_congr_left fun v hv => h v (hvs v hv))
  intro v hv
  cases v with
  | array vs => cases s <;> exact harray vs hv
  | _ => cases s <;> exact False.elim hv

/-- Array suffixes change nothing about the names of fields. -/
theorem LabelAlike.suffixes {t : AbiType} (h : LabelAlike t ps qs) (suffixes : List Suffix) :
    LabelAlike (suffixes.foldl AbiType.suffixed t) ps qs := by
  induction suffixes generalizing t with
  | nil => exact h
  | cons s rest ih => exact ih (h.suffixed s)

/-- Fields are labelled alike by components that agree. -/
theorem labelEach_of_agree (h : List.Forall₂ Param.Agrees ps qs) {vs : List Value}
    (hvs : HaveShapes (qs.map Param.type) vs) : labelEach ps vs = labelEach qs vs := by
  induction h generalizing vs with
  | nil => rfl
  | @cons p q ps qs hp _ ih =>
    cases vs with
    | nil => rfl
    | cons v vs =>
      have hv : label p.components v = label q.components v := hp.alike v hvs.1
      have hrest := ih hvs.2
      rw [labelEach, labelEach]
      exact congrArg₂ List.cons hv hrest

/-- Fields are named alike by components that agree. -/
theorem labelNamed_of_agree (h : List.Forall₂ Param.Agrees ps qs) {vs : List Value}
    (hvs : HaveShapes (qs.map Param.type) vs) : labelNamed ps vs = labelNamed qs vs := by
  induction h generalizing vs with
  | nil => rfl
  | @cons p q ps qs hp _ ih =>
    cases vs with
    | nil => rfl
    | cons v vs =>
      have hname : p.nonBlankName?.getD "" = q.nonBlankName?.getD "" := by rw [hp.name_eq]
      have hv : label p.components v = label q.components v := hp.alike v hvs.1
      have hrest := ih hvs.2
      rw [labelNamed, labelNamed]
      exact congrArg₂ List.cons (congrArg₂ Prod.mk hname hv) hrest

/-- Whether all fields have names is told by the names. -/
theorem nameAll_of_agree (h : List.Forall₂ Param.Agrees ps qs) (count : Nat) :
    Param.nameAll ps count = Param.nameAll qs count := by
  have hall (rs : List Param) : (rs.all fun p => p.nonBlankName?.isSome) =
      (rs.map Param.nonBlankName?).all Option.isSome := by
    rw [List.all_map]
    rfl
  unfold Param.nameAll
  rw [h.length_eq, hall ps, hall qs, map_name_of_agree h]

/-- A tuple of fields that agree has the same names. -/
theorem labelAlike_of_agree (h : List.Forall₂ Param.Agrees ps qs) :
    LabelAlike (.tuple (qs.map Param.type)) ps qs := by
  intro v hv
  cases v with
  | tuple vs =>
    rw [label, label, nameAll_of_agree h, labelEach_of_agree h hv, labelNamed_of_agree h hv]
  | _ => exact False.elim hv

/-- Whether a parameter has no name, and none of its fields has one. -/
structure Param.IsNameless (q : Param) : Prop where
  /-- It has no name. -/
  name : q.nonBlankName? = none
  /-- Its components give no names. -/
  alike : LabelAlike q.type [] q.components

/-- Fields without names are labelled as if they were not known. -/
theorem labelEach_of_nameless (h : ∀ q ∈ qs, q.IsNameless) {vs : List Value}
    (hvs : HaveShapes (qs.map Param.type) vs) : labelEach [] vs = labelEach qs vs := by
  induction qs generalizing vs with
  | nil => rfl
  | cons q qs ih =>
    cases vs with
    | nil => rfl
    | cons v vs =>
      have hv : label [] v = label q.components v := (h q List.mem_cons_self).alike v hvs.1
      have hrest := ih (fun r hr => h r (List.mem_cons_of_mem q hr)) hvs.2
      rw [labelEach, labelEach]
      exact congrArg₂ List.cons hv hrest

/-- A tuple of fields without names has no names. -/
theorem labelAlike_of_nameless (h : ∀ q ∈ qs, q.IsNameless) :
    LabelAlike (.tuple (qs.map Param.type)) [] qs := by
  cases qs with
  | nil =>
    intro v _
    rfl
  | cons q rest =>
    intro v hv
    cases v with
    | tuple vs =>
      cases vs with
      | nil => exact False.elim hv
      | cons w more =>
        have hnone : Param.nameAll [] (w :: more).length = false := rfl
        have hfirst : Param.nameAll (q :: rest) (w :: more).length = false := by
          unfold Param.nameAll
          rw [List.all_cons, (h q List.mem_cons_self).name]
          exact Bool.and_false _
        rw [label, label, hnone, hfirst, labelEach_of_nameless h hv]
        rfl
    | _ => exact False.elim hv

/-- Parameters that agree have heads of the same size. -/
theorem headBytesFrom_of_agree (h : List.Forall₂ Param.Agrees ps qs) (total : Nat) :
    Param.headBytesFrom total ps = Param.headBytesFrom total qs := by
  induction h generalizing total with
  | nil => rfl
  | cons hp _ ih =>
    rw [Param.headBytesFrom, Param.headBytesFrom, hp.type_eq]
    simp only [ih]

/-- Parameters that agree are listed alike. -/
theorem listing_of_agree (h : List.Forall₂ Param.Agrees ps qs) :
    Param.listing ps = Param.listing qs := by
  have hentries : ps.map Param.listingEntry = qs.map Param.listingEntry := by
    induction h with
    | nil => rfl
    | cons hp _ ih =>
      have hentry := hp.name_eq
      rw [List.map_cons, List.map_cons, ih, Param.listingEntry, Param.listingEntry, hp.type_eq,
        hentry]
  unfold Param.listing
  rw [hentries]

/-- Decoded values are labelled alike by parameters that agree. -/
theorem zipWith_label_of_agree (h : List.Forall₂ Param.Agrees ps qs) {vs : List Value}
    (hvs : HaveShapes (qs.map Param.type) vs) :
    List.zipWith (fun v (p : Param) => label p.components v) vs ps =
      List.zipWith (fun v (p : Param) => label p.components v) vs qs := by
  induction h generalizing vs with
  | nil => rfl
  | @cons p q ps qs hp _ ih =>
    cases vs with
    | nil => rfl
    | cons v vs =>
      rw [List.zipWith_cons_cons, List.zipWith_cons_cons, hp.alike v hvs.1, ih hvs.2]

/-- Parameters that agree decode all data alike: to the same values, or with the same fault. -/
theorem decodeValues_of_agree [Memory] (h : List.Forall₂ Param.Agrees ps qs) (data : List UInt8) :
    decodeValues ps data = decodeValues qs data := by
  have hempty : ps.isEmpty = qs.isEmpty := by
    cases h <;> rfl
  have hhead : Param.headBytes ps = Param.headBytes qs := headBytesFrom_of_agree h 0
  unfold decodeValues
  rw [hempty, hhead, listing_of_agree h, map_type_of_agree h]
  cases hdecode : decode (qs.map Param.type) data with
  | error e => rfl
  | ok vs =>
    have hzip : List.zipWith (fun v (p : Param) => label p.components v) vs ps =
        List.zipWith (fun v (p : Param) => label p.components v) vs qs := by
      rcases haveShapes_of_decode hdecode with rfl | hvs
      · rfl
      · exact zipWith_label_of_agree h hvs
    dsimp only
    rw [hzip]

/-- Decoding data does not blame a declaration. -/
theorem ne_malformedDeclaration_of_decodeValues [Memory] {data : List UInt8} {e : DecodeFault}
    (h : decodeValues ps data = .error e) (declaration reason : String) :
    e ≠ .malformedDeclaration declaration reason := by
  obtain rfl | ⟨misfit, -, rfl⟩ := of_decodeValues_error h
  · rintro ⟨⟩
  · rintro ⟨⟩

end RollupInput.Abi
