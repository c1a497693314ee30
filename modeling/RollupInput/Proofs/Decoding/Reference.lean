import RollupInput.Proofs.Decoding.Faults
import RollupInput.Proofs.Decoding.Names

/-!
# Targets that are found

The target of a decode refers to a byte range by name. It is looked up among the names of the
pieces, which are not the names that are written: blanks around them are gone, and a name behind a
type takes their place. A reference that survives both is always found, so that no payload makes
the decode end for want of its target.
-/

namespace RollupInput.Decoding

open Abi

variable {spec : Specification} {mode : ParamsMode} {payload : List UInt8} {target : String}

/-- A target is missing exactly if no piece has its name. -/
theorem unwrap_eq_missingTarget_iff [Memory] {pieces : List Piece} :
    unwrap mode pieces = .error (.missingTarget target) ↔
      mode.target = some target ∧ target ∉ pieces.map Piece.name := by
  unfold unwrap
  cases mode.target with
  | none => simp
  | some other =>
    dsimp only
    cases hfind : pieces.find? (·.name == other) with
    | none =>
      have hother : other ∉ pieces.map Piece.name := by
        simpa [List.find?_eq_none] using hfind
      dsimp only
      constructor
      · intro h
        cases h
        exact ⟨rfl, hother⟩
      · rintro ⟨h, -⟩
        cases h
        rfl
    | some piece =>
      have hfound := List.find?_some hfind
      have hname : piece.name = other := beq_iff_eq.mp hfound
      have hother : other ∈ pieces.map Piece.name :=
        hname ▸ List.mem_map_of_mem (List.mem_of_find?_eq_some hfind)
      dsimp only
      constructor
      · intro h
        cases hpieces : paramPieces mode.declarations piece.part with
        | error e =>
          rw [hpieces] at h
          cases h
        | ok more =>
          rw [hpieces] at h
          cases h
      · rintro ⟨h, hnone⟩
        cases h
        exact absurd hother hnone

/-- A decode ends for want of its target exactly if the payload is cut into pieces and none of them
has the name of the target. -/
theorem error_eq_missingTarget_iff [Memory] (hmode : spec.mode = .params mode) :
    (run spec payload).error = some (.missingTarget target) ↔
      mode.target = some target ∧
        ∃ pieces, cut mode payload = (pieces, none) ∧ target ∉ pieces.map Piece.name := by
  rw [run_of_params hmode]
  cases hcut : cut mode payload with
  | mk pieces e =>
    cases e with
    | some e =>
      have hfault : IsRangeFault payload (mode.ranges.getD []) e :=
        isRangeFault_of_cut (by rw [hcut])
      constructor
      · intro h
        cases h
        cases hfault with
        | params hparams => cases hparams
      · rintro ⟨-, found, h, -⟩
        cases h
    | none =>
      have hmissing := @unwrap_eq_missingTarget_iff mode target _ pieces
      dsimp only
      cases hunwrap : unwrap mode pieces with
      | error e =>
        rw [hunwrap] at hmissing
        constructor
        · intro h
          have herror : (.error e : Except DecodeFault (List Piece)) =
              .error (.missingTarget target) := congrArg _ (Option.some.inj h)
          obtain ⟨htarget, hnone⟩ := hmissing.mp herror
          exact ⟨htarget, pieces, rfl, hnone⟩
        · rintro ⟨htarget, found, h, hnone⟩
          cases h
          have herror := hmissing.mpr ⟨htarget, hnone⟩
          exact congrArg some (Except.error.inj herror)
      | ok more =>
        rw [hunwrap] at hmissing
        constructor
        · intro h
          cases h
        · rintro ⟨htarget, found, h, hnone⟩
          cases h
          cases hmissing.mpr ⟨htarget, hnone⟩

/-- A range under a name without blanks around it gives its piece the name, unless the type of the
range brings another one. -/
theorem pieceName_of_name {r : ByteRange} (hname : r.name = some target)
    (htight : Text.nonBlank? target = some target)
    (hkeeps : r.isMissingFrom payload = true ∨ r.typeName?.getD target = target) (index : Nat) :
    r.pieceName payload index = target := by
  have hlisted : r.listedName index = target := by
    unfold ByteRange.listedName
    rw [hname, Option.bind_some, htight]
    rfl
  unfold ByteRange.pieceName
  rw [hlisted]
  split
  · rfl
  · rename_i hthere
    exact hkeeps.resolve_left hthere

/-- A target that is the name of a range is found, whatever the payload: if the name has no blanks
around it, and the type of the range brings no other name or is not looked at because the range is
missing, then no decode ends for want of a target. -/
theorem target_found [Memory]
    (hmode : spec.mode = .params mode) (htarget : mode.target = some target)
    {r : ByteRange} (hr : r ∈ mode.ranges.getD []) (hname : r.name = some target)
    (htight : Text.nonBlank? target = some target)
    (hkeeps : r.isMissingFrom payload = true ∨ r.typeName?.getD target = target)
    (other : String) : (run spec payload).error ≠ some (.missingTarget other) := by
  intro h
  obtain ⟨hother, pieces, hcut, hnone⟩ := (error_eq_missingTarget_iff hmode).mp h
  rw [htarget, Option.some.injEq] at hother
  cases hranges : mode.ranges with
  | none =>
    rw [hranges] at hr
    cases hr
  | some ranges =>
    rw [hranges, Option.getD_some] at hr
    rw [cut_of_ranges hranges (List.ne_nil_of_mem hr)] at hcut
    obtain ⟨index, hindex, hget⟩ := List.mem_iff_getElem.mp hr
    refine hnone ?_
    rw [map_name_of_rangePieces hcut, List.mem_mapIdx]
    refine ⟨index, hindex, ?_⟩
    rw [hget, ← hother]
    exact pieceName_of_name hname htight hkeeps index

/-- A number that is cut out as bytes under one name, which its type repeats. -/
def wordMode : ParamsMode :=
  ⟨["uint256 amount"], some [⟨0, some 32, some "body", some "bytes32 body", none⟩], some "body"⟩

attribute [local instance] Memory.usual

/-- The bytes of the number are found. -/
theorem wordMode_found :
    wordMode.target = some "body" ∧
    (⟨0, some 32, some "body", some "bytes32 body", none⟩ : ByteRange) ∈
      wordMode.ranges.getD [] ∧
    Text.nonBlank? "body" = some "body" ∧
    ∀ other, (run (bare wordMode) (List.replicate 32 0)).error ≠ some (.missingTarget other) := by
  have hr : (⟨0, some 32, some "body", some "bytes32 body", none⟩ : ByteRange) ∈
      wordMode.ranges.getD [] := List.mem_singleton.mpr rfl
  have htight : Text.nonBlank? "body" = some "body" := by decide +kernel
  exact ⟨rfl, hr, htight, target_found rfl rfl hr rfl htight (.inr (by decide +kernel))⟩

/-- A number whose range has one name, under which it is the target, and its type another. -/
def renamedMode : ParamsMode :=
  ⟨["uint256 x"], some [⟨0, some 32, some "value", some "uint256 amount", none⟩], some "value"⟩

/-- Bytes under a name with blanks around it, under which they are the target. -/
def paddedMode : ParamsMode :=
  ⟨["uint256 x"], some [⟨0, some 32, some " data ", none, none⟩], some " data "⟩

/-- Not every target that is the name of a range is found. It is not if the type of the range brings
another name, and it is not if there are blanks around the name, even where no range has a type. -/
theorem not_forall_target_found :
    (¬∀ spec mode target payload, ∀ r : ByteRange, spec.mode = .params mode →
      mode.target = some target → r ∈ mode.ranges.getD [] → r.name = some target →
      Text.nonBlank? target = some target →
      ∀ other, (run spec payload).error ≠ some (.missingTarget other)) ∧
    ¬∀ spec mode target payload, ∀ r : ByteRange, spec.mode = .params mode →
      mode.target = some target → r ∈ mode.ranges.getD [] → r.name = some target →
      r.type = none → ∀ other, (run spec payload).error ≠ some (.missingTarget other) := by
  constructor
  · intro hall
    refine hall (bare renamedMode) _ "value" (List.replicate 32 0) _ rfl rfl
      (List.mem_singleton.mpr rfl) rfl (by decide +kernel) "value" ?_
    decide +kernel
  · intro hall
    refine hall (bare paddedMode) _ " data " (List.replicate 32 0) _ rfl rfl
      (List.mem_singleton.mpr rfl) rfl rfl " data " ?_
    decide +kernel

end RollupInput.Decoding
