import RollupInput.Decoding.Run

/-!
# What a decode comes to

A decode by parameter declarations cuts the payload into pieces, adds the pieces of its target and
folds them, and ends at the first failure. Here the stages are functions of the mode and the bytes
alone, and the run of a whole decode is put together from them: it is resolved with all pieces, or
has failed with those that were there. Everything else that is proved of decodes starts from this
form.
-/

namespace RollupInput.Decoding

open Abi

/-- The pieces that a payload is cut into, and the failure that ended it, if any. -/
def cut [Memory] (mode : ParamsMode) (payload : List UInt8) : List Piece × Option DecodeFault :=
  match mode.ranges.getD [] with
  | [] =>
    match paramPieces mode.declarations payload with
    | .ok pieces => (pieces, none)
    | .error e => ([], some e)
  | ranges => rangePieces payload 0 ranges

/-- The pieces that the target among some pieces is decoded to; none without a target. -/
def unwrap [Memory] (mode : ParamsMode) (pieces : List Piece) : Except DecodeFault (List Piece) :=
  match mode.target with
  | none => .ok []
  | some target =>
    match pieces.find? (·.name == target) with
    | none => .error (.missingTarget target)
    | some piece =>
      match paramPieces mode.declarations piece.part with
      | .error e => .error (.targetFault target mode.declarations e)
      | .ok more => .ok more

/-- The pieces that have not the name of the target. -/
def kept (target : Option String) (pieces : List Piece) : List Piece :=
  pieces.filter fun p => target != some p.name

/-- The values of pieces by name, those of the target's name left out. -/
def fold (target : Option String) (pieces : List Piece) : NamedValues :=
  NamedValues.empty.insertAll ((kept target pieces).map fun p => (p.name, p.value))

/-- A decode that has failed with some pieces. -/
def failed (spec : Specification) (payload : List UInt8) (pieces : List Piece)
    (e : DecodeFault) : Decoding :=
  ⟨spec, payload, .errored, pieces, .empty, some e⟩

/-- A decode that is resolved with some pieces. -/
def finished (spec : Specification) (payload : List UInt8) (pieces : List Piece)
    (result : NamedValues) : Decoding :=
  ⟨spec, payload, .resolved, pieces, result, none⟩

/-- A specification of which only the mode matters. -/
def bare (mode : ParamsMode) : Specification := ⟨none, "", 0, 0, .params mode, none⟩

/-- Ranges cut the payload. -/
theorem cut_of_ranges [Memory]
    {mode : ParamsMode} {ranges : List ByteRange} (h : mode.ranges = some ranges)
    (hne : ranges ≠ []) (payload : List UInt8) :
    cut mode payload = rangePieces payload 0 ranges := by
  unfold cut
  rw [h]
  cases ranges with
  | nil => exact absurd rfl hne
  | cons r ranges => rfl

/-- The first stage cuts the payload. -/
theorem sliced_start [Memory] (spec : Specification) (mode : ParamsMode) (payload : List UInt8) :
    sliced mode (start spec payload) =
      match cut mode payload with
      | (pieces, none) => ⟨spec, payload, .sliced, pieces, .empty, none⟩
      | (pieces, some e) => failed spec payload pieces e := by
  unfold sliced cut
  have hpayload : (start spec payload).payload = payload := rfl
  rw [hpayload]
  cases mode.ranges.getD [] with
  | nil =>
    dsimp only
    cases paramPieces mode.declarations payload with
    | ok pieces => rfl
    | error e => rfl
  | cons r ranges =>
    dsimp only
    obtain ⟨pieces, e⟩ := rangePieces payload 0 (r :: ranges)
    cases e with
    | none => rfl
    | some e => rfl

/-- The second stage adds the pieces of the target. -/
theorem targetExpanded_eq [Memory] (mode : ParamsMode) (spec : Specification) (payload : List UInt8)
    (pieces : List Piece) :
    targetExpanded mode ⟨spec, payload, .sliced, pieces, .empty, none⟩ =
      match unwrap mode pieces with
      | .ok more => ⟨spec, payload, .targetExpanded, pieces ++ more, .empty, none⟩
      | .error e => failed spec payload pieces e := by
  unfold targetExpanded unwrap piece?
  cases mode.target with
  | none =>
    dsimp only
    rw [List.append_nil]
    rfl
  | some target =>
    dsimp only
    cases pieces.find? (·.name == target) with
    | none => rfl
    | some piece =>
      dsimp only
      cases paramPieces mode.declarations piece.part with
      | ok more => rfl
      | error e => rfl

/-- The pieces of a target are those of the declarations, decoded from the bytes of its piece. -/
theorem exists_of_unwrap [Memory] {mode : ParamsMode} {pieces more : List Piece} {target : String}
    (htarget : mode.target = some target) (h : unwrap mode pieces = .ok more) :
    ∃ piece, pieces.find? (·.name == target) = some piece ∧
      paramPieces mode.declarations piece.part = .ok more := by
  unfold unwrap at h
  rw [htarget] at h
  dsimp only at h
  cases hfind : pieces.find? (·.name == target) with
  | none =>
    rw [hfind] at h
    cases h
  | some piece =>
    rw [hfind] at h
    dsimp only at h
    cases hmore : paramPieces mode.declarations piece.part with
    | error e =>
      rw [hmore] at h
      cases h
    | ok found =>
      rw [hmore] at h
      cases h
      exact ⟨piece, rfl, hmore⟩

/-- A decode by parameter declarations fails with the pieces that were there, while cutting or at
the target, or is resolved with all pieces folded. -/
theorem run_of_params [Memory]
    {spec : Specification} {mode : ParamsMode} (h : spec.mode = .params mode)
    (payload : List UInt8) :
    run spec payload =
      match cut mode payload with
      | (pieces, some e) => failed spec payload pieces e
      | (pieces, none) =>
        match unwrap mode pieces with
        | .error e => failed spec payload pieces e
        | .ok more =>
          finished spec payload (pieces ++ more) (fold mode.target (pieces ++ more)) := by
  have hstart : (start spec payload).andThen (sliced mode) = sliced mode (start spec payload) := rfl
  unfold run
  rw [h]
  dsimp only
  rw [hstart, sliced_start]
  obtain ⟨pieces, e⟩ := cut mode payload
  cases e with
  | some e => rfl
  | none =>
    have hgo : (⟨spec, payload, .sliced, pieces, .empty, none⟩ : Decoding).andThen
        (targetExpanded mode) =
        targetExpanded mode ⟨spec, payload, .sliced, pieces, .empty, none⟩ := rfl
    dsimp only
    rw [hgo, targetExpanded_eq]
    cases unwrap mode pieces with
    | error e => rfl
    | ok more => rfl

/-- A decode by parameter declarations that is resolved has cut the payload and decoded the target,
and its result is the fold of all pieces. -/
theorem run_of_isResolved [Memory] {spec : Specification} {mode : ParamsMode} {payload : List UInt8}
    (hmode : spec.mode = .params mode) (h : (run spec payload).isResolved = true) :
    ∃ pieces more, cut mode payload = (pieces, none) ∧ unwrap mode pieces = .ok more ∧
      run spec payload =
        finished spec payload (pieces ++ more) (fold mode.target (pieces ++ more)) := by
  rw [run_of_params hmode] at h ⊢
  cases hcut : cut mode payload with
  | mk pieces e =>
    rw [hcut] at h
    cases e with
    | some e => cases h
    | none =>
      dsimp only at h ⊢
      cases hunwrap : unwrap mode pieces with
      | error e =>
        rw [hunwrap] at h
        cases h
      | ok more => exact ⟨pieces, more, rfl, hunwrap, rfl⟩

/-- A decode by a contract interface reads the payload as a call, without any pieces. -/
theorem run_of_contract [Memory] {spec : Specification} {abi : Contract.Interface}
    (h : spec.mode = .contract abi) (payload : List UInt8) :
    (∃ e, abi.readCall payload = .error e ∧ run spec payload = failed spec payload [] e) ∨
      ∃ call result, abi.readCall payload = .ok call ∧
        run spec payload = finished spec payload [] result := by
  have hstart : (start spec payload).andThen (called abi) = called abi (start spec payload) := rfl
  have hpayload : (start spec payload).payload = payload := rfl
  unfold run
  rw [h]
  dsimp only
  rw [hstart, called, hpayload]
  cases abi.readCall payload with
  | error e => exact .inl ⟨e, rfl, rfl⟩
  | ok call => exact .inr ⟨call, _, rfl, rfl⟩

/-- Declarations alone, without ranges and target, decode a payload to the pieces of their
parameters. -/
theorem run_of_declarations [Memory] {spec : Specification} {declarations : List String}
    (h : spec.mode = .params ⟨declarations, none, none⟩) (payload : List UInt8) :
    run spec payload =
      match paramPieces declarations payload with
      | .error e => failed spec payload [] e
      | .ok pieces => finished spec payload pieces (fold none pieces) := by
  rw [run_of_params h]
  unfold cut unwrap
  dsimp only [Option.getD_none]
  cases paramPieces declarations payload with
  | error e => rfl
  | ok pieces =>
    dsimp only
    rw [List.append_nil]

end RollupInput.Decoding
