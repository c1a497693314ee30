import RollupInput.Proofs.Decoding.Folding

/-!
# Unwrapping the target

A decode with a target is a decode without it, then a decode of the target's bytes by the
declarations alone, then a fold of the pieces of both. The statement relates three runs, their
failures included.
-/

namespace RollupInput.Decoding

open Abi

variable {spec untargeted alone : Specification} {mode : ParamsMode} {target : String}

/-- Without its target, a decode ends with the pieces that the payload is cut into. -/
theorem run_of_untargeted [Memory] (h : untargeted.mode = .params { mode with target := none })
    (payload : List UInt8) :
    run untargeted payload =
      match cut mode payload with
      | (pieces, some e) => failed untargeted payload pieces e
      | (pieces, none) => finished untargeted payload pieces (fold none pieces) := by
  have hcut : cut { mode with target := none } payload = cut mode payload := rfl
  rw [run_of_params h, hcut]
  obtain ⟨pieces, e⟩ := cut mode payload
  cases e with
  | some e => rfl
  | none =>
    have hunwrap : unwrap { mode with target := none } pieces = .ok [] := rfl
    dsimp only
    rw [hunwrap]
    dsimp only
    rw [List.append_nil]

/-- Unwrapping a target is cutting without it, decoding the bytes of its first piece by the
declarations alone, and folding all pieces. A failure while cutting stays as it is, and so do its
pieces; a missing target is a failure, and a failure of the second decode is reported as one of
the target. The result never holds the name of the target. -/
theorem run_with_target [Memory]
    (hmode : spec.mode = .params mode) (htarget : mode.target = some target)
    (huntargeted : untargeted.mode = .params { mode with target := none })
    (halone : alone.mode = .params ⟨mode.declarations, none, none⟩) (payload : List UInt8) :
    (∀ e, (run untargeted payload).error = some e →
      (run spec payload).error = some e ∧
        (run spec payload).pieces = (run untargeted payload).pieces) ∧
    ((run untargeted payload).error = none →
      (∀ p ∈ (run untargeted payload).pieces, p.name ≠ target) →
      (run spec payload).error = some (.missingTarget target) ∧
        (run spec payload).pieces = (run untargeted payload).pieces) ∧
    (∀ piece, (run untargeted payload).error = none →
      ((run untargeted payload).pieces.find? fun p => p.name == target) = some piece →
      (∀ e, (run alone piece.part).error = some e →
        (run spec payload).error = some (.targetFault target mode.declarations e) ∧
          (run spec payload).pieces = (run untargeted payload).pieces) ∧
      ((run alone piece.part).isResolved = true →
        (run spec payload).isResolved = true ∧ (run spec payload).error = none ∧
          (run spec payload).pieces =
            (run untargeted payload).pieces ++ (run alone piece.part).pieces ∧
          IsFoldOf (some target) (run spec payload).pieces (run spec payload).result)) ∧
    (run spec payload).result.contains target = false := by
  rw [run_of_untargeted huntargeted, run_of_params hmode]
  obtain ⟨pieces, e⟩ := cut mode payload
  cases e with
  | some e =>
    refine ⟨?_, ?_, ?_, rfl⟩
    · intro x hx
      exact ⟨hx, rfl⟩
    · intro hx
      cases hx
    · intro piece hx
      cases hx
  | none =>
    -- The pieces are the same with and without a target: from here on only the target decides.
    dsimp only
    unfold unwrap
    rw [htarget]
    dsimp only [finished]
    refine ⟨?_, ?_, ?_, ?_⟩
    · intro x hx
      cases hx
    · intro _ hnone
      have hfind : (pieces.find? fun p => p.name == target) = none := by
        rw [List.find?_eq_none]
        intro p hp hc
        exact hnone p hp (beq_iff_eq.mp hc)
      rw [hfind]
      exact ⟨rfl, rfl⟩
    · intro piece _ hfind
      rw [hfind, run_of_declarations halone]
      dsimp only
      cases paramPieces mode.declarations piece.part with
      | error e =>
        refine ⟨?_, ?_⟩
        · intro x hx
          cases hx
          exact ⟨rfl, rfl⟩
        · intro hx
          cases hx
      | ok more =>
        refine ⟨?_, ?_⟩
        · intro x hx
          cases hx
        · intro _
          exact ⟨rfl, rfl, rfl, isFoldOf_fold (some target) (pieces ++ more)⟩
    · cases pieces.find? fun p => p.name == target with
      | none => rfl
      | some piece =>
        dsimp only
        cases paramPieces mode.declarations piece.part with
        | error e => rfl
        | ok more =>
          have hfold := (isFoldOf_fold (some target) (pieces ++ more)).contains_iff target
          exact Bool.eq_false_iff.mpr fun hc => (hfold.mp hc).1 rfl

/-- One byte in front, and a number behind it as the target. -/
def sampleMode : ParamsMode :=
  ⟨["uint256 amount"],
    some [⟨0, some 1, some "head", none, none⟩, ⟨1, none, some "body", none, none⟩], some "body"⟩

/-- The word of the number five. -/
def sampleWord : List UInt8 := List.replicate 31 0 ++ [5]

attribute [local instance] Memory.usual

/-- The number of a sample payload stands in the result, and the target does not. -/
theorem sample_unwrapped :
    (run (bare sampleMode) (1 :: sampleWord)).isResolved = true ∧
    (run (bare sampleMode) (1 :: sampleWord)).result.contains "amount" = true ∧
    (run (bare sampleMode) (1 :: sampleWord)).result.contains "body" = false := by
  obtain ⟨-, -, hunwrap, hbody⟩ := @run_with_target (bare sampleMode)
    (bare { sampleMode with target := none }) (bare ⟨["uint256 amount"], none, none⟩)
    sampleMode "body" _ rfl rfl rfl rfl (1 :: sampleWord)
  have hcut : (run (bare { sampleMode with target := none }) (1 :: sampleWord)).error =
      none := by decide +kernel
  have hfind : ((run (bare { sampleMode with target := none })
      (1 :: sampleWord)).pieces.find? fun p => p.name == "body") =
      some ⟨"body", sampleWord, some (.bytes sampleWord)⟩ := by rfl
  have halone : (run (bare ⟨["uint256 amount"], none, none⟩) sampleWord).isResolved =
      true := by decide +kernel
  have hamount : "amount" ∈
      (run (bare sampleMode) (1 :: sampleWord)).pieces.map Piece.name := by decide +kernel
  obtain ⟨hresolved, -, -, hfold⟩ := (hunwrap _ hcut hfind).2 halone
  refine ⟨hresolved, (hfold.contains_iff "amount").mpr ⟨by decide, ?_⟩, hbody⟩
  exact List.mem_map.mp hamount

end RollupInput.Decoding
