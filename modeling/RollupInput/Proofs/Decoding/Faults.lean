import RollupInput.Proofs.Abi.Success
import RollupInput.Proofs.Declaration.Groups
import RollupInput.Proofs.Decoding.Outcome
import RollupInput.Proofs.Mapped
import RollupInput.Proofs.Payload

/-!
# Where faults come from

Each step of a decode can fail in a few ways only. Reading declarations blames one of them, reading
data blames the parameters, and a byte range can lie outside the payload; a target adds its own two
faults. The kinds of faults of a whole decode are put together from those of its steps.
-/

namespace RollupInput

/-- Whether a fault is one of declarations, or of data that are no encoding of their parameters. -/
def DecodeFault.isOfParams : DecodeFault → Bool
  | .malformedDeclaration _ _ => true
  | .tooShort _ _ _ => true
  | .misfit _ _ _ => true
  | _ => false

/-- Whether a fault is one of reading a function call. -/
def DecodeFault.isOfCall : DecodeFault → Bool
  | .unknownSelector _ => true
  | e => e.isOfParams

/-- A fault of parameters can also be met in a function call. -/
theorem DecodeFault.isOfCall_of_isOfParams {e : DecodeFault} (h : e.isOfParams = true) :
    e.isOfCall = true := by
  cases e with
  | unknownSelector selector => rfl
  | _ => exact h

namespace Declaration

/-- Reading declarations fails by blaming one of them. -/
theorem parse_error {declarations : List String} {e : DecodeFault}
    (h : parse declarations = .error e) :
    ∃ declaration ∈ declarations, ∃ fault : Fault,
      e = .malformedDeclaration declaration fault.message := by
  rw [parse] at h
  cases htake : takeAllStructs [] declarations with
  | error e' =>
    rw [htake] at h
    cases h
    obtain ⟨declaration, hmem, -, fault, -, hfault⟩ := takeAllStructs_error htake
    exact ⟨declaration, hmem, fault, hfault⟩
  | ok taken =>
    rw [htake] at h
    obtain ⟨group, hgroup, -, -, fault, -, hfault⟩ := readDeclarations_error h
    rw [← map_fst_of_takeAllStructs htake]
    exact ⟨group.1, List.mem_map_of_mem hgroup, fault, hfault⟩

/-- A fault of declarations is one of parameters. -/
theorem isOfParams_of_parse_error {declarations : List String} {e : DecodeFault}
    (h : parse declarations = .error e) : e.isOfParams = true := by
  obtain ⟨declaration, -, fault, rfl⟩ := parse_error h
  rfl

end Declaration

/-- Reading data fails by blaming the parameters. -/
theorem Abi.isOfParams_of_decodeValues_error [Memory] {params : List Abi.Param} {data : List UInt8}
    {e : DecodeFault} (h : Abi.decodeValues params data = .error e) : e.isOfParams = true := by
  obtain rfl | ⟨misfit, -, rfl⟩ := Abi.of_decodeValues_error h
  · rfl
  · rfl

namespace Decoding

open Abi

/-- Decoding data by declarations fails by a fault of parameters. -/
theorem isOfParams_of_paramPieces_error [Memory] {declarations : List String} {data : List UInt8}
    {e : DecodeFault} (h : paramPieces declarations data = .error e) : e.isOfParams = true := by
  unfold paramPieces at h
  cases hparse : Declaration.parse declarations with
  | error e' =>
    rw [hparse] at h
    cases h
    exact Declaration.isOfParams_of_parse_error hparse
  | ok params =>
    rw [hparse] at h
    dsimp only at h
    cases hvalues : decodeValues params data with
    | error e' =>
      rw [hvalues] at h
      cases h
      exact isOfParams_of_decodeValues_error hvalues
    | ok values =>
      rw [hvalues] at h
      cases h

/-- Decoding a byte range as a type fails by a fault of parameters. -/
theorem isOfParams_of_typedPiece_error [Memory] {name kind : String} {part : List UInt8}
    {e : DecodeFault} (h : typedPiece name kind part = .error e) : e.isOfParams = true := by
  unfold typedPiece at h
  cases hparse : Declaration.parse [kind] with
  | error e' =>
    rw [hparse] at h
    cases h
    exact Declaration.isOfParams_of_parse_error hparse
  | ok params =>
    rw [hparse] at h
    match params with
    | [] =>
      cases h
      rfl
    | [param] => exact isOfParams_of_decodeValues_error (error_of_map h)
    | _ :: _ :: _ =>
      cases h
      rfl

/-- The faults of cutting a payload by byte ranges: the faults of parameters, and those of ranges
that must not be missing and lie outside the payload. -/
inductive IsRangeFault (payload : List UInt8) (ranges : List ByteRange) : DecodeFault → Prop where
  /-- A type of a range or the bytes for it are at fault. -/
  | params {e : DecodeFault} (h : e.isOfParams = true) : IsRangeFault payload ranges e
  /-- A range lies outside the payload. -/
  | outside {r : ByteRange} {edge : RangeEdge} {offset : Nat} (hr : r ∈ ranges)
      (hmissing : r.mayBeMissing = false)
      (houtside : Payload.extract payload r.start r.stop =
        .error (.outOfBounds edge offset payload.length)) :
      IsRangeFault payload ranges (.outOfBounds edge offset payload.length)

/-- A fault of some ranges is one of more ranges. -/
theorem IsRangeFault.mono {payload : List UInt8} {ranges more : List ByteRange} {e : DecodeFault}
    (hsub : ranges ⊆ more) (h : IsRangeFault payload ranges e) : IsRangeFault payload more e := by
  cases h with
  | params h => exact .params h
  | outside hr hmissing houtside => exact .outside (hsub hr) hmissing houtside

/-- A single range fails by one of the faults of ranges. -/
theorem isRangeFault_of_rangePiece_error [Memory]
    {payload : List UInt8} {index : Nat} {r : ByteRange}
    {e : DecodeFault} (h : rangePiece payload index r = .error e) :
    IsRangeFault payload [r] e := by
  unfold rangePiece at h
  dsimp only at h
  cases hextract : Payload.extract payload r.start r.stop with
  | error e' =>
    rw [hextract] at h
    by_cases hmissing : r.mayBeMissing = true
    · rw [hmissing] at h
      cases h
    · rw [Bool.not_eq_true] at hmissing
      rw [hmissing] at h
      cases h
      obtain ⟨edge, offset, rfl⟩ := Payload.extract_error hextract
      exact .outside (.head _) hmissing hextract
  | ok part =>
    rw [hextract] at h
    dsimp only at h
    cases htype : r.type.bind Text.nonBlank? with
    | none =>
      rw [htype] at h
      cases h
    | some kind =>
      rw [htype] at h
      exact .params (isOfParams_of_typedPiece_error h)

/-- Cutting a payload by ranges fails by one of the faults of ranges. The index of the first range
has no part in it. -/
theorem isRangeFault_of_rangePieces [Memory] {payload : List UInt8} {index : Nat}
    {ranges : List ByteRange} {e : DecodeFault}
    (h : (rangePieces payload index ranges).2 = some e) : IsRangeFault payload ranges e := by
  induction ranges generalizing index with
  | nil => cases h
  | cons r rest ih =>
    rw [rangePieces] at h
    cases hpiece : rangePiece payload index r with
    | error e' =>
      rw [hpiece] at h
      cases h
      have hone : [r] ⊆ r :: rest := List.cons_subset_cons r (List.nil_subset rest)
      exact (isRangeFault_of_rangePiece_error hpiece).mono hone
    | ok piece =>
      rw [hpiece] at h
      exact (ih h).mono (List.subset_cons_self r rest)

/-- The faults of a decode by parameter declarations: those of its ranges, and those of its
target. -/
inductive IsFaultOf (mode : ParamsMode) (payload : List UInt8) : DecodeFault → Prop where
  /-- Cutting the payload fails. -/
  | cut {e : DecodeFault} (h : IsRangeFault payload (mode.ranges.getD []) e) :
      IsFaultOf mode payload e
  /-- No piece has the name of the target. -/
  | missingTarget {target : String} (h : mode.target = some target) :
      IsFaultOf mode payload (.missingTarget target)
  /-- The bytes of the target are at fault, or the declarations are. -/
  | targetFault {target : String} {cause : DecodeFault} (h : mode.target = some target)
      (hcause : cause.isOfParams = true) :
      IsFaultOf mode payload (.targetFault target mode.declarations cause)

/-- Cutting a payload fails by one of the faults of ranges. -/
theorem isRangeFault_of_cut [Memory] {mode : ParamsMode} {payload : List UInt8} {e : DecodeFault}
    (h : (cut mode payload).2 = some e) : IsRangeFault payload (mode.ranges.getD []) e := by
  unfold cut at h
  cases hranges : mode.ranges.getD [] with
  | nil =>
    rw [hranges] at h
    dsimp only at h
    cases hpieces : paramPieces mode.declarations payload with
    | error e' =>
      rw [hpieces] at h
      cases h
      exact .params (isOfParams_of_paramPieces_error hpieces)
    | ok pieces =>
      rw [hpieces] at h
      cases h
  | cons r rest =>
    rw [hranges] at h
    exact isRangeFault_of_rangePieces h

/-- The target fails by one of its two faults. -/
theorem isFaultOf_of_unwrap_error [Memory] {mode : ParamsMode} {payload : List UInt8}
    {pieces : List Piece} {e : DecodeFault} (h : unwrap mode pieces = .error e) :
    IsFaultOf mode payload e := by
  unfold unwrap at h
  cases htarget : mode.target with
  | none =>
    rw [htarget] at h
    cases h
  | some target =>
    rw [htarget] at h
    dsimp only at h
    cases hfind : pieces.find? (·.name == target) with
    | none =>
      rw [hfind] at h
      cases h
      exact .missingTarget htarget
    | some piece =>
      rw [hfind] at h
      dsimp only at h
      cases hmore : paramPieces mode.declarations piece.part with
      | error cause =>
        rw [hmore] at h
        cases h
        exact .targetFault htarget (isOfParams_of_paramPieces_error hmore)
      | ok more =>
        rw [hmore] at h
        cases h

end Decoding

namespace Contract

mutual

/-- Resolving a parameter of an interface fails like reading a declaration. -/
theorem isOfParams_of_param_error (a : Argument) {e : DecodeFault} (h : a.param = .error e) :
    e.isOfParams = true := by
  cases a with
  | mk name type internalType components =>
    rw [Argument.param] at h
    cases hresolve : Argument.resolve ⟨name, type, internalType, components⟩ with
    | error fault =>
      rw [hresolve] at h
      cases h
      rfl
    | ok t =>
      rw [hresolve] at h
      exact isOfParams_of_params_error components (error_of_map h)

/-- Resolving the parameters of an interface fails like reading a declaration. -/
theorem isOfParams_of_params_error (inputs : List Argument) {e : DecodeFault}
    (h : params inputs = .error e) : e.isOfParams = true := by
  cases inputs with
  | nil => cases h
  | cons a rest =>
    rw [params] at h
    cases hparam : a.param with
    | error e' =>
      rw [hparam] at h
      cases h
      exact isOfParams_of_param_error a hparam
    | ok p =>
      rw [hparam] at h
      exact isOfParams_of_params_error rest (error_of_map h)

end

/-- Once a function is found, a call fails for the parameters or their data. -/
theorem isOfParams_of_functionOf? [Abi.Memory]
    {abi : Interface} {calldata : List UInt8} {f : Function}
    (hf : abi.functionOf? calldata = some f) {e : DecodeFault}
    (h : abi.readCall calldata = .error e) : e.isOfParams = true := by
  unfold Interface.readCall at h
  rw [hf] at h
  dsimp only at h
  cases hparams : params f.inputs with
  | error e' =>
    rw [hparams] at h
    cases h
    exact isOfParams_of_params_error _ hparams
  | ok ps =>
    rw [hparams] at h
    dsimp only at h
    cases hvalues : Abi.decodeValues ps (calldata.drop selectorSize) with
    | error e' =>
      rw [hvalues] at h
      cases h
      exact Abi.isOfParams_of_decodeValues_error hvalues
    | ok values =>
      rw [hvalues] at h
      cases h

/-- Reading a function call fails because no function has the selector, or by a fault of the
function's parameters. -/
theorem isOfCall_of_readCall_error [Abi.Memory]
    {abi : Interface} {calldata : List UInt8} {e : DecodeFault}
    (h : abi.readCall calldata = .error e) : e.isOfCall = true := by
  cases hf : abi.functionOf? calldata with
  | none =>
    unfold Interface.readCall at h
    rw [hf] at h
    cases h
    rfl
  | some f => exact DecodeFault.isOfCall_of_isOfParams (isOfParams_of_functionOf? hf h)

end Contract

end RollupInput
