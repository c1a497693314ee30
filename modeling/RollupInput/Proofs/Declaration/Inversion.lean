import Mathlib.Data.List.Forall2
import RollupInput.Declaration.Params
import RollupInput.Proofs.Abi.Expressible

/-!
# What parameters are read from

A parameter that is read has gone through every cut of its text, and the base of its type has been
resolved in one of four ways, two of which read fields. One inversion says all of it, so that
nothing else has to open the reader, and one induction goes down to the fields, through tuples and
structs alike. By it parameters have types that can be written.
-/

namespace RollupInput.Declaration

open Abi

/-- What may hold of a parameter that is read: the names of the structs among whose fields it
stands, the structs that may be used in it, its text, and what it is read as. -/
abbrev ReadingProperty : Type := List (List Char) → List StructDef → List Char → Param → Prop

section

variable (P : ReadingProperty) (opened : List (List Char)) (available : List StructDef)

/-- How the base of a type is resolved to a type and to the fields of a tuple, of which each has a
property. -/
inductive IsResolved (base : List Char) : AbiType → List Param → Prop where
  /-- Parentheses with nothing between them. -/
  | emptyTuple {inner : List Char} (hinner : tupleInner? base = some inner)
      (hblank : (Text.trim inner).isEmpty = true) : IsResolved base (.tuple []) []
  /-- Fields between parentheses. -/
  | tuple {inner : List Char} {fields : List Param} (hinner : tupleInner? base = some inner)
      (hfields : List.Forall₂ (P opened available) (cutAtSeparators ',' inner) fields) :
      IsResolved base (.tuple (fields.map Param.type)) fields
  /-- The name of a struct that may be used. -/
  | struct {d : StructDef} {others : List StructDef} {fields : List Param}
      (hinner : tupleInner? base = none) (htake : takeStruct? base available = some (d, others))
      (hfields : List.Forall₂ (P (base :: opened) others) d.fields fields) :
      IsResolved base (.tuple (fields.map Param.type)) fields
  /-- The text of a type. -/
  | elementary {t : AbiType} (hinner : tupleInner? base = none)
      (htake : takeStruct? base available = none) (hopened : opened.contains base = false)
      (ht : elementary base = .ok t) : IsResolved base t []

/-- What a parameter is read from: the cuts of its text, its name, the base of its type, and the
suffixes that are put on. -/
inductive IsReadFrom (written : List Char) : Param → Prop where
  /-- All steps come to something. -/
  | intro {typeText rest base : List Char} {name : Option (List Char)}
      {suffixes : List (List Char)} {t type : AbiType} {components : List Param}
      (htype : cutType? (Text.trim written) = some (typeText, rest))
      (hname : readName (Text.trim written) rest = .ok name)
      (hsuffixes : cutSuffixes? typeText = some (base, suffixes))
      (hbase : IsResolved P opened available base t components)
      (hwith : withSuffixes t suffixes = .ok type) :
      IsReadFrom written ⟨name.map String.ofList, type.text, type, components⟩

end

variable {opened : List (List Char)} {available : List StructDef}

/-- Parameters that are read are read one by one. -/
theorem forall₂_of_readParams {texts : List (List Char)} {ps : List Param}
    (h : readParams opened available texts = .ok ps) :
    List.Forall₂ (fun text p => readParam opened available text = .ok p) texts ps := by
  induction texts generalizing ps with
  | nil =>
    rw [readParams] at h
    cases h
    exact .nil
  | cons text rest ih =>
    rw [readParams] at h
    cases hp : readParam opened available text with
    | error e =>
      rw [hp] at h
      cases h
    | ok p =>
      rw [hp] at h
      obtain ⟨more, hmore, rfl⟩ := ok_of_map h
      exact .cons hp (ih hmore)

/-- A parameter that is read has gone through all steps. -/
theorem isReadFrom_of_readParam {written : List Char} {p : Param}
    (h : readParam opened available written = .ok p) :
    IsReadFrom (fun o a w q => readParam o a w = .ok q) opened available written p := by
  rw [readParam] at h
  dsimp only at h
  split at h
  · cases h
  · split at h
    · cases h
    · rename_i typeText rest htype
      cases hname : readName (Text.trim written) rest with
      | error e =>
        rw [hname] at h
        cases h
      | ok name =>
        rw [hname] at h
        dsimp only at h
        split at h
        · cases h
        · rename_i base suffixes hsuffixes
          split at h
          · cases h
          · rename_i t components hresolved
            obtain ⟨type, hwith, rfl⟩ := ok_of_map h
            refine .intro htype hname hsuffixes ?_ hwith
            split at hresolved
            · rename_i inner hinner
              split at hresolved
              · rename_i hblank
                cases hresolved
                exact .emptyTuple hinner hblank
              · obtain ⟨fields, hfields, hpair⟩ := ok_of_map hresolved
                cases hpair
                exact .tuple hinner (forall₂_of_readParams hfields)
            · rename_i hinner
              split at hresolved
              · rename_i d others htake
                obtain ⟨fields, hfields, hpair⟩ := ok_of_map hresolved
                cases hpair
                exact .struct hinner htake (forall₂_of_readParams hfields)
              · rename_i htake
                split at hresolved
                · cases hresolved
                · rename_i hopened
                  obtain ⟨u, hu, hpair⟩ := ok_of_map hresolved
                  cases hpair
                  exact .elementary hinner htake (Bool.eq_false_iff.mpr hopened) hu

/-- A text of a list has its part in the weight of the list. -/
theorem le_weight_of_mem {texts : List (List Char)} {text : List Char} (h : text ∈ texts) :
    3 * text.length + 3 ≤ weight texts := by
  induction texts with
  | nil => cases h
  | cons first rest ih =>
    rw [weight]
    rcases List.mem_cons.mp h with rfl | h
    · omega
    · have hrest := ih h
      omega

/-- What relates the members of two lists one for one may be replaced by what it implies for the
members of the first. -/
theorem forall₂_of_mem {α β : Type} {R S : α → β → Prop} {xs : List α} {ys : List β}
    (h : List.Forall₂ R xs ys) (himp : ∀ x ∈ xs, ∀ y, R x y → S x y) : List.Forall₂ S xs ys := by
  induction h with
  | nil => exact .nil
  | @cons x y xs ys hxy _ ih =>
    exact .cons (himp x List.mem_cons_self y hxy)
      (ih fun z hz => himp z (List.mem_cons_of_mem x hz))

/-- Every member of a list that is related to another one for one is related to something. -/
theorem exists_of_forall₂ {α β : Type} {R : α → β → Prop} {xs : List α} {ys : List β}
    (h : List.Forall₂ R xs ys) : ∀ x ∈ xs, ∃ y, R x y := by
  induction h with
  | nil => exact List.forall_mem_nil _
  | cons hxy _ ih => exact List.forall_mem_cons.mpr ⟨⟨_, hxy⟩, ih⟩

/-- What holds of a parameter as soon as it holds of its fields holds of all parameters that are
read. The induction goes on to a shorter text, or to the fields of a struct that is not available
any more below. -/
theorem readParam_induction {P : ReadingProperty}
    (step : ∀ {o a w p}, IsReadFrom P o a w p → P o a w p) (opened : List (List Char))
    (available : List StructDef) (written : List Char) (p : Param)
    (h : readParam opened available written = .ok p) : P opened available written p := by
  obtain ⟨htype, hname, hsuffixes, hbase, hwith⟩ := isReadFrom_of_readParam h
  refine step (.intro htype hname hsuffixes ?_ hwith)
  cases hbase with
  | emptyTuple hinner hblank => exact .emptyTuple hinner hblank
  | tuple hinner hfields =>
    refine .tuple hinner (forall₂_of_mem hfields ?_)
    intro text hmem q hq
    exact readParam_induction step opened available text q hq
  | struct hinner htake hfields =>
    refine .struct hinner htake (forall₂_of_mem hfields ?_)
    intro text hmem q hq
    exact readParam_induction step _ _ text q hq
  | elementary hinner htake hopened ht => exact .elementary hinner htake hopened ht
termination_by structWeight available + (3 * written.length + 2)
decreasing_by
  all_goals have htext := le_weight_of_mem hmem
  · have h₀ := length_trim_le written
    have h₁ := length_cutTypeFrom_le htype
    have h₂ := length_cutSuffixes_le hsuffixes
    have h₃ := length_tupleInner_le hinner
    rw [weight_cutAtSeparators] at htext
    dsimp only at h₁ h₂
    omega
  · have h₃ := structWeight_takeStruct htake
    omega

/-- Array suffixes that are read are put on a type that can be written. -/
theorem isExpressible_of_withSuffixes {suffixes : List (List Char)} {t type : AbiType}
    (ht : t.IsExpressible) (h : withSuffixes t suffixes = .ok type) : type.IsExpressible := by
  induction suffixes generalizing t with
  | nil =>
    cases h
    exact ht
  | cons size rest ih =>
    rw [withSuffixes] at h
    cases hsize : readSize size with
    | error e =>
      rw [hsize] at h
      cases h
    | ok s =>
      rw [hsize] at h
      exact ih (ht.suffixed s) h

/-- An elementary type can be written. -/
theorem isExpressible_of_elementary {base : List Char} {t : AbiType}
    (h : elementary base = .ok t) : t.IsExpressible := by
  unfold elementary at h
  split at h
  · cases h
  · cases h
  · rename_i hparse
    cases h
    exact AbiType.isExpressible_of_parse hparse

/-- A tuple of fields whose types can be written can be written. -/
theorem isExpressible_tuple_of_fields {texts : List (List Char)} {fields : List Param}
    (h : List.Forall₂ (fun _ p => p.type.IsExpressible) texts fields) :
    (AbiType.tuple (fields.map Param.type)).IsExpressible := by
  refine .tuple ?_
  induction h with
  | nil => simp
  | cons hp _ ih => exact List.forall_mem_cons.mpr ⟨hp, ih⟩

/-- A parameter that is read has a type that can be written. -/
theorem isExpressible_of_readParam {written : List Char} {p : Param}
    (h : readParam opened available written = .ok p) : p.type.IsExpressible := by
  refine readParam_induction (P := fun _ _ _ q => q.type.IsExpressible) ?_ opened available written
    p h
  rintro o a w q ⟨-, -, -, hbase, hwith⟩
  refine isExpressible_of_withSuffixes ?_ hwith
  cases hbase with
  | emptyTuple hinner hblank => exact isExpressible_tuple_of_fields .nil
  | tuple hinner hfields => exact isExpressible_tuple_of_fields hfields
  | struct hinner htake hfields => exact isExpressible_tuple_of_fields hfields
  | elementary hinner htake hopened ht => exact isExpressible_of_elementary ht

/-- Every parameter of a list that is read is read from a text. -/
theorem exists_of_readParams {texts : List (List Char)} {ps : List Param}
    (h : readParams opened available texts = .ok ps) :
    ∀ p ∈ ps, ∃ text, readParam opened available text = .ok p :=
  exists_of_forall₂ (forall₂_of_readParams h).flip

/-- Every parameter of declarations is read from a text, with the structs of all of them. -/
theorem exists_of_readDeclarations {structs : List StructDef} {left : List (String × List Char)}
    {ps : List Param} (h : readDeclarations structs left = .ok ps) :
    ∀ p ∈ ps, ∃ text, readParam [] structs text = .ok p := by
  induction left generalizing ps with
  | nil =>
    cases h
    simp
  | cons first rest ih =>
    rw [readDeclarations] at h
    split at h
    · cases h
    · rename_i own hown
      obtain ⟨more, hmore, rfl⟩ := ok_of_map h
      refine List.forall_mem_append.mpr ⟨?_, ih hmore⟩
      split at hown
      · cases hown
        simp
      · exact exists_of_readParams hown

/-- Parameters of declarations have types that can be written. -/
theorem isExpressible_of_declarations {declarations : List String} {ps : List Param}
    (h : parse declarations = .ok ps) : ∀ p ∈ ps, p.type.IsExpressible := by
  unfold parse at h
  split at h
  · cases h
  · intro p hp
    obtain ⟨text, hread⟩ := exists_of_readDeclarations h p hp
    exact isExpressible_of_readParam hread

end RollupInput.Declaration
