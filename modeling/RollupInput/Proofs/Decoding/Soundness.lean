import RollupInput.Proofs.Abi.RoundTrip
import RollupInput.Proofs.Abi.Success
import RollupInput.Proofs.Contract.Declared
import RollupInput.Proofs.Declaration.Inversion

/-!
# Decoded values are of their types

Data is chosen by whoever sends it. Whatever they choose, and wherever the parameters come from, a
decode that succeeds gives one value for each parameter, of its type and with exactly the names of
its components. The values of types that are made of nothing are left out.
-/

namespace RollupInput.Contract

open Abi

mutual

/-- A parameter of an interface is resolved to a type that can be written. -/
theorem isExpressible_of_resolve (a : Argument) {t : AbiType} (h : a.resolve = .ok t) :
    t.IsExpressible := by
  obtain ⟨name, type, internalType, components⟩ := a
  rw [Argument.resolve] at h
  split at h
  · cases h
  · rename_i written _
    split at h
    · exact AbiType.isExpressible_of_ofText written h
    · obtain ⟨ts, hts, rfl⟩ := ok_of_map h
      have htuple := AbiType.IsExpressible.tuple (forall_isExpressible_of_resolveAll components hts)
      exact htuple.suffixes written.suffixes

/-- Parameters of an interface are resolved to types that can be written. -/
theorem forall_isExpressible_of_resolveAll (as : List Argument) {ts : List AbiType}
    (h : resolveAll as = .ok ts) : ∀ t ∈ ts, t.IsExpressible := by
  cases as with
  | nil =>
    rw [resolveAll] at h
    cases h
    simp
  | cons a rest =>
    rw [resolveAll] at h
    cases ha : a.resolve with
    | error e =>
      rw [ha] at h
      cases h
    | ok t =>
      rw [ha] at h
      obtain ⟨more, hmore, rfl⟩ := ok_of_map h
      exact List.forall_mem_cons.mpr ⟨isExpressible_of_resolve a ha,
        forall_isExpressible_of_resolveAll rest hmore⟩

end

end RollupInput.Contract

namespace RollupInput.Decoding

open Abi

/-- Where parameters come from. -/
inductive AreRead (params : List Param) : Prop where
  /-- They are declared. -/
  | declared {declarations : List String} (h : Declaration.parse declarations = .ok params)
  /-- They are those of an item of an interface. -/
  | listed {arguments : List Contract.Argument} (h : Contract.params arguments = .ok params)

/-- Whether a value is one of a parameter: without its names it is one of the type, and it has the
names of the components. -/
structure IsValueOf (p : Param) (v : Value) : Prop where
  /-- It is of the type. -/
  typed : HasType p.type v.plain
  /-- It has the names of the components. -/
  labelled : Labelled p.components v

variable {params : List Param} {data : List UInt8} {vs : List Value}

/-- Parameters have types that can be written, so their byte strings of fixed size fit words. -/
theorem allFitWords_of_areRead (h : AreRead params) :
    AbiType.allFitWords (params.map Param.type) = true := by
  have hall : ∀ t ∈ params.map Param.type, t.IsExpressible := by
    cases h with
    | declared h => exact List.forall_mem_map.mpr (Declaration.isExpressible_of_declarations h)
    | listed h =>
      exact Contract.forall_isExpressible_of_resolveAll _ (Contract.resolveAll_of_params h)
  exact AbiType.allFitWords_iff.mpr fun t ht => AbiType.fitsWords_of_isExpressible (hall t ht)

/-- Labelled values that are of the types of parameters without their names are values of the
parameters. -/
theorem forall₂_isValueOf {ws : List Value}
    (htypes : HaveTypes (params.map Param.type) (ws.map Value.plain))
    (hlabels : List.Forall₂ (fun p w => Labelled p.components w) params ws) :
    List.Forall₂ IsValueOf params ws := by
  induction hlabels with
  | nil => exact .nil
  | cons hlabel _ ih => exact .cons ⟨htypes.1, hlabel⟩ (ih htypes.2)

/-- Decoding is sound: whatever the data, parameters that are read are given no values if there are
none of them or their types are made of nothing, and else one value each, of its type at every depth
and with the names of its components. -/
theorem decodeValues_sound [Memory]
    (hread : AreRead params) (h : decodeValues params data = .ok vs) :
    ((params = [] ∨ AbiType.allEmpty (params.map Param.type) = true) ∧ vs = []) ∨
      AbiType.allEmpty (params.map Param.type) = false ∧ List.Forall₂ IsValueOf params vs := by
  by_cases hnone : params = []
  · rw [hnone, decodeValues_nil] at h
    cases h
    exact .inl ⟨.inl hnone, rfl⟩
  · obtain ⟨size, values, -, -, hdecode, rfl⟩ := (decodeValues_eq_ok_iff hnone).mp h
    cases hempty : AbiType.allEmpty (params.map Param.type) with
    | true =>
      rw [decode_of_allEmpty hempty] at hdecode
      cases hdecode
      exact .inl ⟨.inr rfl, rfl⟩
    | false =>
      obtain ⟨-, -, -, hvalues⟩ := (decode_eq_ok_iff hempty).mp hdecode
      have htypes := haveTypes_of_readEach data.toArray _ (allFitWords_of_areRead hread) 0 0 0 values
        hvalues
      obtain ⟨hplain, hlabels⟩ := labelled_zipWith_label htypes
      exact .inr ⟨rfl, forall₂_isValueOf (by rwa [hplain]) hlabels⟩

/-- A pair of which one field has no name, in an array, and a field that has one. -/
def pairArguments : List Contract.Argument :=
  [⟨"pairs", "tuple[1]", none, [⟨"n", "uint8", none, []⟩, ⟨"", "bool", none, []⟩]⟩,
    ⟨"tag", "tuple", none, [⟨"b", "bytes3", none, []⟩]⟩]

/-- The parameters of the pair. -/
def pairParams : List Param :=
  [⟨some "pairs", "tuple[1]", .fixedArray (.tuple [.uint 8, .bool]) 1,
      [⟨some "n", "uint8", .uint 8, []⟩, ⟨some "", "bool", .bool, []⟩]⟩,
    ⟨some "tag", "tuple", .tuple [.fixedBytes 3], [⟨some "b", "bytes3", .fixedBytes 3, []⟩]⟩]

/-- Three words of nothing but ones, to which no value of these types is encoded. -/
def onesData : List UInt8 := List.replicate 96 255

/-- What the ones are decoded as. -/
def pairValues : List Value :=
  [.array [.tuple [.uint (Nat.pow 2 256 - 1), .bool true]],
    .struct [("b", .bytes [255, 255, 255])]]

attribute [local instance] Memory.usual

/-- The ones are decoded as values of the types, with the names that are there. -/
theorem pairValues_sound : Contract.params pairArguments = .ok pairParams ∧
    decodeValues pairParams onesData = .ok pairValues ∧
    List.Forall₂ IsValueOf pairParams pairValues := by
  have hparams : Contract.params pairArguments = .ok pairParams := by with_unfolding_all rfl
  have hdecode : decodeValues pairParams onesData = .ok pairValues := by rfl
  obtain ⟨-, hnone⟩ | ⟨-, hvalues⟩ := decodeValues_sound (.listed hparams) hdecode
  · cases hnone
  · exact ⟨hparams, hdecode, hvalues⟩

end RollupInput.Decoding
