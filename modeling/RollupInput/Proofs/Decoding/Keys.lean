import RollupInput.Proofs.Decoding.Folding
import RollupInput.Proofs.Decoding.Names

/-!
# Keys of results

Whoever collects the results of many payloads expects the same keys from each. A specification fixes
them, up to one exception: the type of a range that is missing is not looked at, so a name that
stands behind the type does not come to bear. The keys of two payloads are the same if the ranges
with such names are missing from both or from neither.
-/

namespace RollupInput.Decoding

open Abi

variable {spec : Specification} {mode : ParamsMode} {payload other : List UInt8}

/-- Whether each range whose type brings another name than the listed one is missing from both of
two payloads or from neither. -/
def MissAlike (ranges : List ByteRange) (payload other : List UInt8) : Prop :=
  ∀ index, ∀ h : index < ranges.length,
    ranges[index].typeName?.getD (ranges[index].listedName index) ≠ ranges[index].listedName index →
      ranges[index].isMissingFrom payload = ranges[index].isMissingFrom other

/-- The pieces of declarations have the same names for all data. -/
theorem map_name_paramPieces_eq [Memory] {declarations : List String} {data data' : List UInt8}
    {pieces pieces' : List Piece} (h : paramPieces declarations data = .ok pieces)
    (h' : paramPieces declarations data' = .ok pieces') :
    pieces.map Piece.name = pieces'.map Piece.name := by
  obtain ⟨params, values, hparse, -, -⟩ := exists_of_paramPieces h
  rw [map_name_of_paramPieces hparse h, map_name_of_paramPieces hparse h']

/-- A range gives its piece the same name on two payloads, if it is missing from both or neither or
its type brings no other name. -/
theorem pieceName_eq {r : ByteRange} {index : Nat}
    (h : r.typeName?.getD (r.listedName index) ≠ r.listedName index →
      r.isMissingFrom payload = r.isMissingFrom other) :
    r.pieceName payload index = r.pieceName other index := by
  unfold ByteRange.pieceName
  by_cases hname : r.typeName?.getD (r.listedName index) = r.listedName index
  · rw [hname, ite_self, ite_self]
  · rw [h hname]

/-- Two payloads from which the same ranges are missing are cut into pieces of the same names. -/
theorem map_name_cut_eq [Memory] {pieces pieces' : List Piece}
    (hmiss : MissAlike (mode.ranges.getD []) payload other)
    (h : cut mode payload = (pieces, none)) (h' : cut mode other = (pieces', none)) :
    pieces.map Piece.name = pieces'.map Piece.name := by
  unfold cut at h h'
  cases hranges : mode.ranges.getD [] with
  | nil =>
    rw [hranges] at h h'
    dsimp only at h h'
    cases hpieces : paramPieces mode.declarations payload with
    | error e =>
      rw [hpieces] at h
      cases h
    | ok found =>
      cases hpieces' : paramPieces mode.declarations other with
      | error e =>
        rw [hpieces'] at h'
        cases h'
      | ok found' =>
        rw [hpieces] at h
        rw [hpieces'] at h'
        cases h
        cases h'
        exact map_name_paramPieces_eq hpieces hpieces'
  | cons r rest =>
    rw [hranges] at h h' hmiss
    rw [map_name_of_rangePieces h, map_name_of_rangePieces h', List.mapIdx_eq_mapIdx_iff]
    intro index hindex
    exact pieceName_eq (hmiss index hindex)

/-- Targets of any bytes are decoded to pieces of the same names. -/
theorem map_name_unwrap_eq [Memory] {pieces pieces' more more' : List Piece}
    (h : unwrap mode pieces = .ok more) (h' : unwrap mode pieces' = .ok more') :
    more.map Piece.name = more'.map Piece.name := by
  cases htarget : mode.target with
  | none =>
    unfold unwrap at h h'
    rw [htarget] at h h'
    cases h
    cases h'
    rfl
  | some target =>
    obtain ⟨piece, -, hpieces⟩ := exists_of_unwrap htarget h
    obtain ⟨piece', -, hpieces'⟩ := exists_of_unwrap htarget h'
    exact map_name_paramPieces_eq hpieces hpieces'

/-- The keys of a result are fixed by the specification: two payloads that are decoded by parameter
declarations have the same keys in the same order, if the ranges whose types bring names of their
own are missing from both or from neither. -/
theorem keys_run_eq [Memory] (hmode : spec.mode = .params mode)
    (hmiss : MissAlike (mode.ranges.getD []) payload other)
    (h : (run spec payload).isResolved = true) (h' : (run spec other).isResolved = true) :
    (run spec payload).result.keys = (run spec other).result.keys := by
  obtain ⟨pieces, more, hcut, hunwrap, hrun⟩ := run_of_isResolved hmode h
  obtain ⟨pieces', more', hcut', hunwrap', hrun'⟩ := run_of_isResolved hmode h'
  have hnames : (pieces ++ more).map Piece.name = (pieces' ++ more').map Piece.name := by
    rw [List.map_append, List.map_append, map_name_cut_eq hmiss hcut hcut',
      map_name_unwrap_eq hunwrap hunwrap']
  rw [hrun, hrun']
  dsimp only [finished]
  rw [(isFoldOf_fold ..).keys_eq, (isFoldOf_fold ..).keys_eq, hnames]

/-- A number under the name behind its type, and what comes after it, if anything does. -/
def amountMode : ParamsMode :=
  ⟨[], some [⟨0, some 32, some "value", some "uint256 amount", none⟩,
    ⟨32, none, some "note", none, some true⟩], none⟩

attribute [local instance] Memory.usual

/-- With a note and without one, the keys are the same. -/
theorem amountMode_keys :
    MissAlike (amountMode.ranges.getD []) (List.replicate 32 0) (List.replicate 34 0) ∧
    (run (bare amountMode) (List.replicate 32 0)).isResolved = true ∧
    (run (bare amountMode) (List.replicate 34 0)).isResolved = true ∧
    (run (bare amountMode) (List.replicate 32 0)).result.keys =
      (run (bare amountMode) (List.replicate 34 0)).result.keys := by
  have hmiss : MissAlike (amountMode.ranges.getD []) (List.replicate 32 0)
      (List.replicate 34 0) := by
    intro index hindex hname
    match index with
    | 0 => rfl
    | 1 => exact absurd rfl hname
    | index + 2 =>
      have htwo : index + 2 < 2 := hindex
      omega
  have h : (run (bare amountMode) (List.replicate 32 0)).isResolved = true := by decide +kernel
  have h' : (run (bare amountMode) (List.replicate 34 0)).isResolved = true := by decide +kernel
  exact ⟨hmiss, h, h', keys_run_eq rfl hmiss h h'⟩

/-- A number that may be missing, with a name behind its type. -/
def optionalAmount : ParamsMode :=
  ⟨[], some [⟨0, some 32, some "value", some "uint256 amount", some true⟩], none⟩

/-- The keys are not fixed by the specification alone: where the number is missing, it is listed
under the name of its range, and not under the one behind its type. -/
theorem not_forall_keys_run_eq :
    ¬∀ spec mode payload other, spec.mode = .params mode → (run spec payload).isResolved = true →
      (run spec other).isResolved = true →
      (run spec payload).result.keys = (run spec other).result.keys := by
  intro hall
  have hkeys := hall (bare optionalAmount) _ (List.replicate 32 0) [] rfl (by decide +kernel)
    (by decide +kernel)
  exact absurd hkeys (by decide +kernel)

end RollupInput.Decoding
