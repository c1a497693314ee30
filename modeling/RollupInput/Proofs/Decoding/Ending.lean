import RollupInput.Proofs.Decoding.Faults
import RollupInput.Proofs.Specification.Mode

/-!
# How a decode ends

A decode has come to its end: it is resolved without an error, or it has failed with an error and
without a result, and nothing lies between. The fault tells from which step it comes. A written
specification is decoded like the specification that is read from it.
-/

namespace RollupInput.Decoding

/-- Whether a decode is a finished one of a payload by a specification. -/
structure HasEnded (spec : Specification) (payload : List UInt8) (d : Decoding) : Prop where
  /-- It is a decode by the specification. -/
  spec_eq : d.spec = spec
  /-- It is a decode of the payload. -/
  payload_eq : d.payload = payload
  /-- It is resolved without an error, or has failed with an error and without a result. -/
  outcome : (d.stage = .resolved ∧ d.error = none) ∨
    (d.stage = .errored ∧ (∃ e, d.error = some e) ∧ d.result = .empty)
  /-- A call gives no pieces, and fails by a fault of calls. -/
  of_contract : ∀ abi, spec.mode = .contract abi →
    d.pieces = [] ∧ ∀ e, d.error = some e → e.isOfCall = true
  /-- Parameter declarations fail by a fault of their ranges, or of their target. -/
  of_params : ∀ mode, spec.mode = .params mode → ∀ e, d.error = some e → IsFaultOf mode payload e

/-- A decode that failed has ended if its fault is one of its mode, and if it has pieces only in
the mode that gives some. -/
theorem hasEnded_failed {spec : Specification} {payload : List UInt8} {pieces : List Piece}
    {e : DecodeFault}
    (hcontract : ∀ abi, spec.mode = .contract abi → pieces = [] ∧ e.isOfCall = true)
    (hparams : ∀ mode, spec.mode = .params mode → IsFaultOf mode payload e) :
    HasEnded spec payload (failed spec payload pieces e) where
  spec_eq := rfl
  payload_eq := rfl
  outcome := .inr ⟨rfl, ⟨e, rfl⟩, rfl⟩
  of_contract := by
    intro abi hmode
    obtain ⟨hpieces, hfault⟩ := hcontract abi hmode
    refine ⟨hpieces, ?_⟩
    rintro x ⟨⟩
    exact hfault
  of_params := by
    intro mode hmode
    rintro x ⟨⟩
    exact hparams mode hmode

/-- A resolved decode has ended if it has pieces only in the mode that gives some. -/
theorem hasEnded_finished {spec : Specification} {payload : List UInt8} {pieces : List Piece}
    {result : NamedValues} (hcontract : ∀ abi, spec.mode = .contract abi → pieces = []) :
    HasEnded spec payload (finished spec payload pieces result) where
  spec_eq := rfl
  payload_eq := rfl
  outcome := .inl ⟨rfl, rfl⟩
  of_contract := by
    intro abi hmode
    refine ⟨hcontract abi hmode, ?_⟩
    rintro x ⟨⟩
  of_params := by
    rintro mode - x ⟨⟩

/-- A decode by parameter declarations ends, at whichever stage it fails. -/
theorem hasEnded_run_of_params [Abi.Memory] {spec : Specification} {mode : ParamsMode}
    (h : spec.mode = .params mode) (payload : List UInt8) :
    HasEnded spec payload (run spec payload) := by
  have hnone : ∀ abi, spec.mode ≠ .contract abi := by
    intro abi hmode
    rw [h] at hmode
    cases hmode
  have hfailed : ∀ pieces e, IsFaultOf mode payload e →
      HasEnded spec payload (failed spec payload pieces e) := by
    intro pieces e hfault
    refine hasEnded_failed (fun abi hmode => absurd hmode (hnone abi)) ?_
    intro other hmode
    rw [h] at hmode
    cases hmode
    exact hfault
  rw [run_of_params h]
  cases hcut : cut mode payload with
  | mk pieces fault =>
    cases fault with
    | some e =>
      have hfault : (cut mode payload).2 = some e := by rw [hcut]
      exact hfailed pieces e (.cut (isRangeFault_of_cut hfault))
    | none =>
      dsimp only
      cases hunwrap : unwrap mode pieces with
      | error e => exact hfailed pieces e (isFaultOf_of_unwrap_error hunwrap)
      | ok more => exact hasEnded_finished fun abi hmode => absurd hmode (hnone abi)

/-- A decode of a function call ends. -/
theorem hasEnded_run_of_contract [Abi.Memory] {spec : Specification} {abi : Contract.Interface}
    (h : spec.mode = .contract abi) (payload : List UInt8) :
    HasEnded spec payload (run spec payload) := by
  rcases run_of_contract h payload with ⟨e, hcall, hrun⟩ | ⟨call, result, -, hrun⟩
  · rw [hrun]
    refine hasEnded_failed ?_ ?_
    · intro _ _
      exact ⟨rfl, Contract.isOfCall_of_readCall_error hcall⟩
    · intro mode hmode
      rw [h] at hmode
      cases hmode
  · rw [hrun]
    exact hasEnded_finished fun _ _ => rfl

/-- A decode by any specification ends. -/
theorem hasEnded_run [Abi.Memory] (spec : Specification) (payload : List UInt8) :
    HasEnded spec payload (run spec payload) := by
  cases hmode : spec.mode with
  | params mode => exact hasEnded_run_of_params hmode payload
  | contract abi => exact hasEnded_run_of_contract hmode payload

/-- Every decode ends. A written specification is decoded exactly if it can be read, and then like
the one that is read; otherwise the fault is the one of reading it, which is an unknown mode
exactly if no mode is named, and a wrong shape if one is. -/
theorem decode_ends [Abi.Memory] (spec : Specification) (v : Json) (payload : List UInt8) :
    HasEnded spec payload (run spec payload) ∧
    (∀ e, runJson v payload = .error e ↔ Specification.ofJson v = .error e) ∧
    (∀ parsed, Specification.ofJson v = .ok parsed →
      runJson v payload = .ok (run parsed payload)) ∧
    ((∃ mode, Specification.ofJson v = .error (.unknownMode mode)) ↔
      ¬Specification.NamesMode v) ∧
    (Specification.NamesMode v → ∀ e, Specification.ofJson v = .error e →
      ∃ reason, e = .malformedSpecification reason) := by
  refine ⟨hasEnded_run spec payload, ?_, ?_, Specification.ofJson_unknownMode_iff v, ?_⟩
  · intro e
    constructor
    · intro h
      exact error_of_map h
    · intro h
      rw [runJson, h]
      rfl
  · intro parsed h
    rw [runJson, h]
    rfl
  · intro hnames e herror
    exact Specification.malformed_of_ofJson_error hnames herror

end RollupInput.Decoding
