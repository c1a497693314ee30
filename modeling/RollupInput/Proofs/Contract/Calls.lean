import RollupInput.Contract.Call
import RollupInput.Proofs.Abi.Checksum
import RollupInput.Proofs.Decoding.Outcome
import RollupInput.Proofs.NamedValues

/-!
# Calls of a selected function

What becomes of a call whose selector is that of exactly one function of an interface: the call is
read by the parameters of that function, from what is behind the selector. A decode by the interface
fails with the fault of reading the call, or ends with the arguments of the call.
-/

namespace RollupInput.Contract

open Abi Decoding

/-- Whether a function is the only one of an interface that has its selector. -/
structure Interface.Selects (abi : Interface) (f : Function) : Prop where
  /-- It is a function of the interface. -/
  mem : f ∈ abi.functions
  /-- No other function has its selector. -/
  unique : ∀ g ∈ abi.functions, g.selector = f.selector → g = f

/-- The interface of one function. -/
def soleInterface (f : Function) : Interface := ⟨none, none, none, [f], [], []⟩

/-- One function is the only one of its selector. -/
theorem soleInterface_selects (f : Function) : (soleInterface f).Selects f where
  mem := List.mem_singleton.mpr rfl
  unique := fun _ hg _ => List.mem_singleton.mp hg

/-- A selector has as many bytes as selectors have. -/
theorem length_selector (f : Function) : f.selector.length = selectorSize := by
  unfold Function.selector
  rw [List.length_take, Keccak.length_hash]
  rfl

/-- The bytes behind a selector are left when it is dropped. -/
theorem drop_selector (f : Function) (data : List UInt8) :
    (f.selector ++ data).drop selectorSize = data := by
  rw [← length_selector f, List.drop_left]

/-- A call of a selected function is one of that function. -/
theorem functionOf?_selector {abi : Interface} {f : Function} (h : abi.Selects f)
    (data : List UInt8) : abi.functionOf? (f.selector ++ data) = some f := by
  have htake : (f.selector ++ data).take selectorSize = f.selector := by
    rw [← length_selector f, List.take_left]
  unfold Interface.functionOf?
  rw [htake]
  have hsome : (abi.functions.find? fun g => g.selector == f.selector).isSome = true :=
    List.find?_isSome.mpr ⟨f, h.mem, beq_self_eq_true _⟩
  obtain ⟨g, hg⟩ := Option.isSome_iff_exists.mp hsome
  have hfound := List.find?_some hg
  have hselector : g.selector = f.selector := beq_iff_eq.mp hfound
  rw [hg, h.unique g (List.mem_of_find?_eq_some hg) hselector]

section

variable {abi : Interface} {f : Function} {data : List UInt8} {ps : List Param} {e : DecodeFault}

/-- A call is read exactly if a function has its selector, the parameters of that function resolve, and
what is behind the selector is decoded for them. -/
theorem readCall_eq_ok_iff [Memory] {calldata : List UInt8} {call : Call} :
    abi.readCall calldata = .ok call ↔
      ∃ f ps values, abi.functionOf? calldata = some f ∧ params f.inputs = .ok ps ∧
        decodeValues ps (calldata.drop selectorSize) = .ok values ∧
        call = ⟨f.name, f.signature, values, (ps.mapIdx argumentName).zip values⟩ := by
  unfold Interface.readCall
  constructor
  · intro h
    split at h
    · cases h
    · rename_i f hf
      split at h
      · cases h
      · rename_i ps hps
        split at h
        · cases h
        · rename_i values hvalues
          exact ⟨f, ps, values, hf, hps, hvalues, (Except.ok.inj h).symm⟩
  · rintro ⟨f, ps, values, hf, hps, hvalues, rfl⟩
    rw [hf]
    dsimp only
    rw [hps]
    dsimp only
    rw [hvalues]

/-- A call is not read if no function has its selector, which is quoted as far as it is there. -/
theorem readCall_of_not_found [Memory]
    {calldata : List UInt8} (h : abi.functionOf? calldata = none) :
    abi.readCall calldata =
      .error (.unknownSelector (Text.Hex.ofBytes (calldata.take selectorSize))) := by
  unfold Interface.readCall
  rw [h]

/-- A call is not read if the parameters of its function do not resolve. -/
theorem readCall_of_params_error [Memory]
    {calldata : List UInt8} (h : abi.functionOf? calldata = some f)
    (hparams : params f.inputs = .error e) : abi.readCall calldata = .error e := by
  unfold Interface.readCall
  rw [h]
  dsimp only
  rw [hparams]

/-- A call is read as the values that are decoded for the parameters of its function. -/
theorem readCall_of_params [Memory] {calldata : List UInt8} (h : abi.functionOf? calldata = some f)
    (hparams : params f.inputs = .ok ps) :
    abi.readCall calldata = (decodeValues ps (calldata.drop selectorSize)).map fun values =>
      ⟨f.name, f.signature, values, (ps.mapIdx argumentName).zip values⟩ := by
  unfold Interface.readCall
  rw [h]
  dsimp only
  rw [hparams]
  dsimp only
  cases decodeValues ps (calldata.drop selectorSize) <;> rfl

/-- A call whose parameters do not resolve is not read. -/
theorem readCall_of_unresolved [Memory] (h : abi.Selects f) (hparams : params f.inputs = .error e) :
    abi.readCall (f.selector ++ data) = .error e :=
  readCall_of_params_error (functionOf?_selector h data) hparams

/-- A call whose data do not fit the parameters is not read. -/
theorem readCall_of_misfit [Memory] (h : abi.Selects f) (hparams : params f.inputs = .ok ps)
    (hvalues : decodeValues ps data = .error e) :
    abi.readCall (f.selector ++ data) = .error e := by
  rw [readCall_of_params (functionOf?_selector h data) hparams, drop_selector, hvalues]
  rfl

/-- A call whose data fit the parameters is read as its values with their names. -/
theorem readCall_of_values [Memory] (h : abi.Selects f) (hparams : params f.inputs = .ok ps)
    {values : List Value} (hvalues : decodeValues ps data = .ok values) :
    abi.readCall (f.selector ++ data) =
      .ok ⟨f.name, f.signature, values, (ps.mapIdx argumentName).zip values⟩ := by
  refine readCall_eq_ok_iff.mpr ⟨f, ps, values, functionOf?_selector h data, hparams, ?_, rfl⟩
  rw [drop_selector, hvalues]

end

variable {spec : Specification} {abi : Interface} {payload : List UInt8}

/-- A call that is not read makes the decode fail. -/
theorem run_of_readCall_error [Memory] (hmode : spec.mode = .contract abi) {e : DecodeFault}
    (h : abi.readCall payload = .error e) : run spec payload = failed spec payload [] e := by
  rcases run_of_contract hmode payload with ⟨e', he, hrun⟩ | ⟨call, result, hcall, -⟩
  · rw [h] at he
    cases he
    exact hrun
  · rw [h] at hcall
    cases hcall

/-- The result of a call: the name of its function, and its arguments without and with names. -/
def Call.result (call : Call) : NamedValues :=
  NamedValues.empty.insertAll [("functionName", .string call.name), ("args", .array call.arguments),
    ("orderedNamedArgs", .array (call.named.map fun p => .tuple [.string p.1, p.2]))]

/-- A call that is read makes the decode end with its arguments, with and without their names. -/
theorem run_of_readCall [Memory] (hmode : spec.mode = .contract abi) {call : Call}
    (h : abi.readCall payload = .ok call) :
    ∃ result, run spec payload = finished spec payload [] result ∧
      result.get? "args" = some (.array call.arguments) ∧
      result.get? "orderedNamedArgs" =
        some (.array (call.named.map fun p => .tuple [.string p.1, p.2])) := by
  have hstart : (start spec payload).andThen (called abi) = called abi (start spec payload) := rfl
  have hpayload : (start spec payload).payload = payload := rfl
  unfold run
  rw [hmode]
  dsimp only
  rw [hstart, called, hpayload, h]
  refine ⟨Call.result call, rfl, ?_, ?_⟩
  · rw [Call.result, NamedValues.get?_insertAll]
    rfl
  · rw [Call.result, NamedValues.get?_insertAll]
    rfl

end RollupInput.Contract
