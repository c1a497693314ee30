import RollupInput.Proofs.Abi.Appended
import RollupInput.Proofs.Abi.RoundTrip
import RollupInput.Proofs.Contract.Calls

/-!
# Appended bytes of calls

Bytes behind the arguments of a call change nothing about it, as long as its selector is complete:
with fewer bytes than a selector has, more of them may complete another one.
-/

namespace RollupInput.Contract

open Abi

variable {abi : Interface} {calldata : List UInt8} {call : Call}

/-- Calldata with a complete selector that is read as a call is read as that call with bytes behind
it. -/
theorem readCall_append [Memory] (hlong : selectorSize ≤ calldata.length)
    (h : abi.readCall calldata = .ok call) (more : List UInt8) :
    abi.readCall (calldata ++ more) = .ok call := by
  obtain ⟨f, ps, values, hf, hps, hvalues, hcall⟩ := readCall_eq_ok_iff.mp h
  have hselector : (calldata ++ more).take selectorSize = calldata.take selectorSize :=
    List.take_append_of_le_length hlong
  have harguments : (calldata ++ more).drop selectorSize = calldata.drop selectorSize ++ more :=
    List.drop_append_of_le_length hlong
  refine readCall_eq_ok_iff.mpr ⟨f, ps, values, ?_, hps, ?_, hcall⟩
  · unfold Interface.functionOf? at hf ⊢
    rw [hselector, hf]
  · rw [harguments]
    exact decodeValues_append hvalues more

/-- Appending bytes never changes a decode that succeeds: not the values of a parameter list, and not
a call with a complete selector. -/
theorem decoded_append [Memory] (more : List UInt8) :
    (∀ params data vs, decodeValues params data = .ok vs →
      decodeValues params (data ++ more) = .ok vs) ∧
    ∀ (abi : Interface) calldata call, selectorSize ≤ calldata.length →
      abi.readCall calldata = .ok call → abi.readCall (calldata ++ more) = .ok call :=
  ⟨fun _ _ _ h => decodeValues_append h more, fun _ _ _ hlong h => readCall_append hlong h more⟩

/-- A function of a number with a byte string. -/
def noteFunction : Function :=
  ⟨"note", [⟨"entry", "tuple", none, [⟨"id", "uint8", none, []⟩, ⟨"text", "bytes", none, []⟩]⟩], [],
    .nonpayable⟩

/-- The parameters of the function. -/
def noteParams : List Param :=
  [⟨some "entry", "tuple", .tuple [.uint 8, .bytes],
    [⟨some "id", "uint8", .uint 8, []⟩, ⟨some "text", "bytes", .bytes, []⟩]⟩]

/-- The encoding of a number with a byte string of two bytes, without padding behind these. -/
def noteArguments : List UInt8 :=
  wordOfNat 32 ++ wordOfNat 7 ++ wordOfNat 64 ++ wordOfNat 2 ++ [104, 105]

attribute [local instance] Memory.usual

set_option maxRecDepth 4000 in
/-- The number and the byte string stay what they are with bytes behind them, by themselves and as the
argument of a call. -/
theorem noteArguments_append :
    decodeValues noteParams noteArguments =
      .ok [.struct [("id", .uint 7), ("text", .bytes [104, 105])]] ∧
    decodeValues noteParams (noteArguments ++ [1, 2, 3]) =
      .ok [.struct [("id", .uint 7), ("text", .bytes [104, 105])]] ∧
    selectorSize ≤ (noteFunction.selector ++ noteArguments).length ∧
    ∃ call, (soleInterface noteFunction).readCall (noteFunction.selector ++ noteArguments) = .ok call ∧
      (soleInterface noteFunction).readCall (noteFunction.selector ++ noteArguments ++ [1, 2, 3]) =
        .ok call := by
  have hparams : params noteFunction.inputs = .ok noteParams := by with_unfolding_all rfl
  have hvalues : decodeValues noteParams noteArguments =
      .ok [.struct [("id", .uint 7), ("text", .bytes [104, 105])]] := by rfl
  have hlong : selectorSize ≤ (noteFunction.selector ++ noteArguments).length := by
    rw [List.length_append, length_selector]
    exact Nat.le_add_right _ _
  have hcall := readCall_of_values (soleInterface_selects noteFunction) hparams hvalues
  exact ⟨hvalues, (decoded_append [1, 2, 3]).1 _ _ _ hvalues, hlong, _, hcall,
    (decoded_append [1, 2, 3]).2 _ _ _ hlong hcall⟩

end RollupInput.Contract
