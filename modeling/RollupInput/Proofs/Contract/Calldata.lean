import RollupInput.Proofs.Contract.Blamed
import RollupInput.Proofs.Contract.Calls
import RollupInput.Proofs.Decoding.Distinct
import RollupInput.Proofs.Decoding.Faults
import RollupInput.Proofs.Decoding.Names
import RollupInput.Proofs.Portals.Cutting

/-!
# Calldata decoded in two ways

A call can be decoded by the interface of its contract, or by cutting off the selector and decoding
what is behind it by a declaration of the parameters. Both come to the same: the same values under
the same names, or the same failure. Only where a type cannot be resolved does each way blame the
text that it has read, the parameter of the interface or the declaration, for the same cause.
-/

namespace RollupInput.Contract

open Abi Decoding Declaration

/-- The mode that cuts off a selector and decodes what is behind it by a declaration. -/
def calldataMode (declaration : String) : ParamsMode :=
  ⟨[declaration], some [⟨selectorSize, none, some "calldata", none, none⟩], some "calldata"⟩

/-- Whether the parameters of a function, of which there are some and which have names of their own,
are written as one declaration. -/
structure Function.IsWrittenAs (f : Function) (ws : List Written) : Prop where
  /-- There are parameters. -/
  nonempty : f.inputs ≠ []
  /-- All parameters have names. -/
  named : ∀ a ∈ f.inputs, a.name ≠ ""
  /-- No name is repeated. -/
  nodup : (f.inputs.map Argument.name).Nodup
  /-- Blanks, modifiers and names are where they may stand. -/
  laidOut : AreLaidOut ws
  /-- The parameters are written one for one. -/
  declares : DeclareAll ws f.inputs

namespace Function.IsWrittenAs

variable {f : Function} {ws : List Written}

/-- Something is written. -/
theorem ne_nil (h : f.IsWrittenAs ws) : ws ≠ [] := by
  have hdeclares := h.declares
  cases has : f.inputs with
  | nil => exact absurd has h.nonempty
  | cons a rest =>
    rw [has] at hdeclares
    obtain ⟨w, more, rfl, -⟩ := hdeclares
    exact List.cons_ne_nil w more

/-- The names of the parameters have no blanks around them, and are no modifiers. -/
theorem name (h : f.IsWrittenAs ws) : ∀ a ∈ f.inputs,
    Text.nonBlank? a.name = some a.name ∧ a.name.toList ∉ Declaration.modifiers := fun a ha =>
  name_of_declareAll h.declares h.laidOut a ha (h.named a ha)

/-- No parameter has the name of the bytes behind a selector. -/
theorem calldata_notMem (h : f.IsWrittenAs ws) : "calldata" ∉ f.inputs.map Argument.name := by
  intro hmem
  obtain ⟨a, ha, heq⟩ := List.mem_map.mp hmem
  refine (h.name a ha).2 ?_
  rw [heq]
  decide

end Function.IsWrittenAs

/-- Whether a decode of a call and a decode by a declaration of the bytes behind its selector come
to the same. -/
structure CallsAlike (ws : List Written) (call cut : Decoding) : Prop where
  /-- Both are resolved, or none is. -/
  resolved_iff : call.isResolved = true ↔ cut.isResolved = true
  /-- The arguments are the values of the result. -/
  args : call.isResolved = true →
    call.result.get? "args" = some (.array (cut.result.entries.map Prod.snd))
  /-- The arguments with their names are the entries of the result. -/
  named : call.isResolved = true → call.result.get? "orderedNamedArgs" =
    some (.array (cut.result.entries.map fun e => .tuple [.string e.1, e.2]))
  /-- A fault of the call that blames no declaration is the cause of the other fault. -/
  error_iff : ∀ e, (∀ text reason, e ≠ .malformedDeclaration text reason) →
    (call.error = some e ↔ cut.error = some (.targetFault "calldata" [declaration ws] e))
  /-- If the call blames a parameter, the other fault blames the declaration. -/
  malformed_iff : (∃ text reason, call.error = some (.malformedDeclaration text reason)) ↔
    ∃ reason, cut.error = some (.targetFault "calldata" [declaration ws]
      (.malformedDeclaration (declaration ws) reason))
  /-- It does so for the cause that the call gives, and adds the name of the unknown type, if the
  keyword of structs is no part of a name. -/
  cause : (∀ n ∈ typeNamesOf ws, KeywordFree n) → ∀ text reason,
    call.error = some (.malformedDeclaration text reason) → ∃ reason', NamesCause ws reason reason' ∧
      cut.error = some (.targetFault "calldata" [declaration ws]
        (.malformedDeclaration (declaration ws) reason'))

variable {spec : Specification} {abi : Interface} {text : String} {payload front data : List UInt8}

/-- The bytes behind a selector are cut off as one piece. -/
theorem cut_calldata [Memory] (hfront : front.length = selectorSize) (hne : data ≠ []) :
    cut (calldataMode text) (front ++ data) =
      ([Portals.rawPiece "calldata" data], none) := by
  have hname : Text.nonBlank? "calldata" = some "calldata" := by rfl
  have hpiece := @Portals.rangePiece_rest front data _ "calldata" hname
    (List.length_pos_of_ne_nil hne) 0
  rw [hfront] at hpiece
  have hrange : rangePiece (front ++ data) 0 ⟨selectorSize, none, some "calldata", none, none⟩ =
      .ok (Portals.rawPiece "calldata" data) := hpiece
  rw [cut_of_ranges rfl (by simp), rangePieces, hrange]
  rfl

/-- The declaration is applied to the bytes behind a selector. -/
theorem unwrap_calldata [Memory] :
    unwrap (calldataMode text) [Portals.rawPiece "calldata" data] =
      match paramPieces [text] data with
      | .error e => .error (.targetFault "calldata" [text] e)
      | .ok more => .ok more := rfl

/-- A declaration that does not fit the bytes behind a selector makes the decode fail. -/
theorem run_of_calldata_error [Memory] (hmode : spec.mode = .params (calldataMode text))
    (hfront : front.length = selectorSize) (hne : data ≠ []) {e : DecodeFault}
    (h : paramPieces [text] data = .error e) :
    run spec (front ++ data) = failed spec (front ++ data) [Portals.rawPiece "calldata" data]
      (.targetFault "calldata" [text] e) := by
  rw [run_of_params hmode, cut_calldata hfront hne]
  dsimp only
  rw [unwrap_calldata, h]

/-- The pieces of a declaration that fits the bytes behind a selector are the result. -/
theorem run_of_calldata [Memory] (hmode : spec.mode = .params (calldataMode text))
    (hfront : front.length = selectorSize) (hne : data ≠ []) {more : List Piece}
    (h : paramPieces [text] data = .ok more) :
    run spec (front ++ data) =
      finished spec (front ++ data) (Portals.rawPiece "calldata" data :: more)
        (fold (some "calldata") (Portals.rawPiece "calldata" data :: more)) := by
  rw [run_of_params hmode, cut_calldata hfront hne]
  dsimp only
  rw [unwrap_calldata, h]
  rfl

/-- What is the same at every place of a list does not depend on the place. -/
theorem map_mapIdx_eq_map {α β γ : Type} {change : Nat → α → β} {g : β → γ} {f : α → γ}
    {items : List α} (h : ∀ index, ∀ a ∈ items, g (change index a) = f a) :
    (items.mapIdx change).map g = items.map f := by
  refine List.ext_getElem (by rw [List.length_map, List.length_mapIdx, List.length_map]) ?_
  intro index hleft hright
  rw [List.getElem_map, List.getElem_mapIdx, List.getElem_map]
  exact h index _ (List.getElem_mem _)

variable {names : List String} {ps : List Param}

/-- Known names are the names of the parameters. -/
theorem map_getD_of_names (h : ps.map Param.nonBlankName? = names.map some) :
    ps.map (fun p => p.nonBlankName?.getD "") = names := by
  have hnames := congrArg (List.map fun name : Option String => name.getD "") h
  rw [List.map_map, List.map_map] at hnames
  exact hnames.trans (List.map_id names)

/-- A parameter whose name is known has one. -/
theorem exists_name_of_names (h : ps.map Param.nonBlankName? = names.map some) {p : Param}
    (hp : p ∈ ps) : ∃ name, p.nonBlankName? = some name := by
  have hmem : p.nonBlankName? ∈ names.map some := h ▸ List.mem_map_of_mem hp
  obtain ⟨name, -, hname⟩ := List.mem_map.mp hmem
  exact ⟨name, hname.symm⟩

/-- What is listed under the name of a parameter, where there is one, is listed under known names. -/
theorem mapIdx_of_names {listed : Nat → Param → String}
    (hlisted : ∀ index p name, p.nonBlankName? = some name → listed index p = name)
    (h : ps.map Param.nonBlankName? = names.map some) : ps.mapIdx listed = names := by
  have hnames : (ps.mapIdx listed).map id = ps.map fun p => p.nonBlankName?.getD "" := by
    refine map_mapIdx_eq_map fun index p hp => ?_
    obtain ⟨name, hname⟩ := exists_name_of_names h hp
    rw [hname]
    exact hlisted index p name hname
  rw [List.map_id] at hnames
  exact hnames.trans (map_getD_of_names h)

/-- The arguments of a call are listed under known names. -/
theorem mapIdx_argumentName (h : ps.map Param.nonBlankName? = names.map some) :
    ps.mapIdx argumentName = names := by
  refine mapIdx_of_names ?_ h
  intro index p name hname
  unfold argumentName
  rw [hname]

/-- The pieces of parameters stand for their values under known names. -/
theorem entries_pieceOf (h : ps.map Param.nonBlankName? = names.map some) (values : List Value) :
    ((ps.zip values).mapIdx pieceOf).map (fun p => (p.name, p.value)) = names.zip values := by
  have hnames : ps.mapIdx parameterName = names := by
    refine mapIdx_of_names ?_ h
    intro index p name hname
    unfold parameterName
    rw [hname]
    rfl
  rw [entries_of_pieceOf, hnames]

/-- Names with values are no more than the names. -/
theorem map_fst_zip_sublist (names : List String) (values : List Value) :
    ((names.zip values).map Prod.fst).Sublist names := by
  induction names generalizing values with
  | nil => exact .slnil
  | cons name rest ih =>
    cases values with
    | nil => exact List.nil_sublist _
    | cons v values => exact (ih values).cons_cons name

/-- The result of pieces with distinct names, none of which is the name of the target, has the
entries of the pieces. -/
theorem entries_fold_calldata {pieces : List Piece} {entries : List (String × Value)}
    (hentries : pieces.map (fun p => (p.name, p.value)) = entries)
    (hnodup : (entries.map Prod.fst).Nodup) (hother : "calldata" ∉ entries.map Prod.fst) :
    (fold (some "calldata") (Portals.rawPiece "calldata" data :: pieces)).entries = entries := by
  have hnames : pieces.map Piece.name = entries.map Prod.fst := by
    rw [← hentries, List.map_map]
    rfl
  have hbesides : besides (some "calldata") (Portals.rawPiece "calldata" data :: pieces) = pieces :=
    List.eraseP_cons_of_pos (beq_self_eq_true _)
  have hdistinct : AreDistinct (some "calldata") pieces := by
    refine ⟨by rwa [hnames], ?_⟩
    intro p hp heq
    refine hother ?_
    rw [← hnames, Option.some.inj heq]
    exact List.mem_map_of_mem hp
  have hfold := @entries_fold (some "calldata") (Portals.rawPiece "calldata" data :: pieces)
    (by rwa [hbesides])
  rw [hfold, hbesides, hentries]

/-- Resolved parameters have the names of the parameters, if these are no blanks. -/
theorem map_nonBlankName?_of_params {as : List Argument} (h : params as = .ok ps)
    (hnames : ∀ a ∈ as, Text.nonBlank? a.name = some a.name) :
    ps.map Param.nonBlankName? = (as.map Argument.name).map some := by
  induction as generalizing ps with
  | nil =>
    rw [params] at h
    cases h
    rfl
  | cons a rest ih =>
    rw [params] at h
    cases ha : a.param with
    | error e =>
      rw [ha] at h
      cases h
    | ok p =>
      rw [ha] at h
      obtain ⟨more, hmore, rfl⟩ := ok_of_map h
      have hfirst : p.nonBlankName? = some a.name := by
        rw [Param.nonBlankName?, name_of_param ha, Option.bind_some]
        exact hnames a List.mem_cons_self
      rw [List.map_cons, hfirst, ih hmore fun b hb => hnames b (List.mem_cons_of_mem a hb)]
      rfl

/-- Decodes that fail for one cause, which blames no declaration, come to the same. -/
theorem callsAlike_of_failed {ws : List Written} {callSpec cutSpec : Specification}
    {pieces : List Piece} {e : DecodeFault} (h : ∀ text reason, e ≠ .malformedDeclaration text reason) :
    CallsAlike ws (failed callSpec payload [] e)
      (failed cutSpec payload pieces (.targetFault "calldata" [declaration ws] e)) where
  resolved_iff := Iff.rfl
  args := by rintro ⟨⟩
  named := by rintro ⟨⟩
  error_iff := by
    intro x _
    constructor
    · rintro ⟨⟩
      rfl
    · rintro ⟨⟩
      rfl
  malformed_iff := by
    constructor
    · rintro ⟨blamed, reason, heq⟩
      exact absurd (Option.some.inj heq) (h blamed reason)
    · rintro ⟨reason, heq⟩
      have hcause := (DecodeFault.targetFault.inj (Option.some.inj heq)).2.2
      exact absurd hcause (h (declaration ws) reason)
  cause := fun _ blamed reason heq => absurd (Option.some.inj heq) (h blamed reason)

/-- Decodes that fail because of a type come to the same. -/
theorem callsAlike_of_malformed {ws : List Written} {callSpec cutSpec : Specification}
    {pieces : List Piece} {blamed reason reason' : String}
    (hcause : (∀ n ∈ typeNamesOf ws, KeywordFree n) → NamesCause ws reason reason') :
    CallsAlike ws (failed callSpec payload [] (.malformedDeclaration blamed reason))
      (failed cutSpec payload pieces (.targetFault "calldata" [declaration ws]
        (.malformedDeclaration (declaration ws) reason'))) where
  resolved_iff := Iff.rfl
  args := by rintro ⟨⟩
  named := by rintro ⟨⟩
  error_iff := by
    intro x hx
    constructor
    · intro heq
      exact absurd (Option.some.inj heq).symm (hx blamed reason)
    · intro heq
      have hsame := (DecodeFault.targetFault.inj (Option.some.inj heq)).2.2
      exact absurd hsame.symm (hx (declaration ws) reason')
  malformed_iff := ⟨fun _ => ⟨reason', rfl⟩, fun _ => ⟨blamed, reason, rfl⟩⟩
  cause := by
    intro hfree blamed' reason'' heq
    obtain ⟨-, rfl⟩ := DecodeFault.malformedDeclaration.inj (Option.some.inj heq)
    exact ⟨reason', hcause hfree, rfl⟩

section

variable {callSpec cutSpec : Specification} {f : Function} {qs : List Param} {ws : List Written}

/-- Where neither the parameters nor the declaration resolve, for one cause, the decodes come to the
same. -/
theorem callsAlike_of_unresolved [Memory] (hselects : abi.Selects f) (hne : data ≠ [])
    (hcall : callSpec.mode = .contract abi)
    (hcut : cutSpec.mode = .params (calldataMode (declaration ws)))
    {blamed reason reason' : String}
    (hparams : params f.inputs = .error (.malformedDeclaration blamed reason))
    (hparse : Declaration.parse [declaration ws] =
      .error (.malformedDeclaration (declaration ws) reason'))
    (hcause : (∀ n ∈ typeNamesOf ws, KeywordFree n) → NamesCause ws reason reason') :
    CallsAlike ws (run callSpec (f.selector ++ data)) (run cutSpec (f.selector ++ data)) := by
  have hcutFails : paramPieces [declaration ws] data =
      .error (.malformedDeclaration (declaration ws) reason') := by
    unfold paramPieces
    rw [hparse]
  rw [run_of_readCall_error hcall (readCall_of_unresolved hselects hparams),
    run_of_calldata_error hcut (length_selector f) hne hcutFails]
  exact callsAlike_of_malformed hcause

/-- Where the data do not fit the parameters, the decodes come to the same. -/
theorem callsAlike_of_misfit [Memory] (hselects : abi.Selects f) (hne : data ≠ [])
    (hcall : callSpec.mode = .contract abi)
    (hcut : cutSpec.mode = .params (calldataMode (declaration ws)))
    (hparams : params f.inputs = .ok ps) (hparse : Declaration.parse [declaration ws] = .ok qs)
    (hagree : List.Forall₂ Param.Agrees ps qs) {e : DecodeFault}
    (hvalues : decodeValues ps data = .error e) :
    CallsAlike ws (run callSpec (f.selector ++ data)) (run cutSpec (f.selector ++ data)) := by
  have hcutFails : paramPieces [declaration ws] data = .error e := by
    unfold paramPieces
    rw [hparse]
    dsimp only
    rw [← decodeValues_of_agree hagree, hvalues]
  rw [run_of_readCall_error hcall (readCall_of_misfit hselects hparams hvalues),
    run_of_calldata_error hcut (length_selector f) hne hcutFails]
  exact callsAlike_of_failed (ne_malformedDeclaration_of_decodeValues hvalues)

/-- Where the data fit the parameters, and the names of these are distinct and none is that of the
target, the decodes come to the same. -/
theorem callsAlike_of_values [Memory] (hselects : abi.Selects f) (hne : data ≠ [])
    (hcall : callSpec.mode = .contract abi)
    (hcut : cutSpec.mode = .params (calldataMode (declaration ws)))
    (hparams : params f.inputs = .ok ps) (hparse : Declaration.parse [declaration ws] = .ok qs)
    (hagree : List.Forall₂ Param.Agrees ps qs) {values : List Value}
    (hvalues : decodeValues ps data = .ok values)
    (hnames : ps.map Param.nonBlankName? = names.map some) (hnodup : names.Nodup)
    (hother : "calldata" ∉ names) :
    CallsAlike ws (run callSpec (f.selector ++ data)) (run cutSpec (f.selector ++ data)) := by
  have hread := readCall_of_values hselects hparams hvalues
  rw [mapIdx_argumentName hnames] at hread
  have hlength : values.length ≤ names.length := by
    have hcount := congrArg List.length hnames
    rw [List.length_map, List.length_map] at hcount
    rw [← hcount]
    exact length_decodeValues_le hvalues
  have hpieces := paramPieces_of_values hparse ((decodeValues_of_agree hagree data).symm.trans hvalues)
  have hsublist := map_fst_zip_sublist names values
  have hentries := @entries_fold_calldata data _ _
    (entries_pieceOf ((map_name_of_agree hagree).symm.trans hnames) values)
    (hnodup.sublist hsublist) fun hmem => hother (hsublist.subset hmem)
  obtain ⟨result, hrun, hargs, hordered⟩ := run_of_readCall hcall hread
  rw [hrun, run_of_calldata hcut (length_selector f) hne hpieces]
  refine ⟨Iff.rfl, fun _ => ?_, fun _ => ?_, ?_, ?_, ?_⟩
  · dsimp only [finished]
    rw [hargs, hentries, List.map_snd_zip hlength]
  · dsimp only [finished]
    rw [hordered, hentries]
  · intro e _
    constructor
    · rintro ⟨⟩
    · rintro ⟨⟩
  · constructor
    · rintro ⟨_, _, ⟨⟩⟩
    · rintro ⟨_, ⟨⟩⟩
  · rintro _ _ _ ⟨⟩

/-- A call and the bytes behind its selector are decoded alike, by the interface and by a declaration
that writes the parameters of the function. A type of the declaration that has a point may not have
the keyword of structs on one side of it, which the declaration takes for one. -/
theorem callsAlike_of_isWrittenAs [Memory] (hselects : abi.Selects f)
    (hwritten : f.IsWrittenAs ws) (hpoints : ∀ n ∈ typeNamesOf ws, '.' ∈ n → KeywordFree n)
    (hne : data ≠ []) (hcall : callSpec.mode = .contract abi)
    (hcut : cutSpec.mode = .params (calldataMode (declaration ws))) :
    CallsAlike ws (run callSpec (f.selector ++ data)) (run cutSpec (f.selector ++ data)) := by
  have hread := readAlike_of_declareAll ws f.inputs hwritten.declares
  have hparse := toOption_parse_of_specifiers hwritten.ne_nil hwritten.laidOut fun n hn =>
    ⟨exists_of_declareAll ws f.inputs hwritten.declares n hn, hpoints n hn⟩
  have hparse : (Declaration.parse [declaration ws]).toOption = params? elementary? ws := hparse
  cases hqs : params? elementary? ws with
  | none =>
    rw [hqs] at hread hparse
    cases hps : params f.inputs with
    | ok ps =>
      rw [hps] at hread
      exact False.elim hread
    | error e =>
      rw [hps] at hread
      obtain ⟨blamed, reason, rfl⟩ := hread
      cases hfault : Declaration.parse [declaration ws] with
      | ok qs =>
        rw [hfault] at hparse
        cases hparse
      | error fault =>
        obtain ⟨text, hmem, cause, rfl⟩ := parse_error hfault
        obtain rfl := List.mem_singleton.mp hmem
        exact callsAlike_of_unresolved hselects hne hcall hcut hps hfault fun hfree =>
          namesCause_of_declareAll hwritten.ne_nil hwritten.laidOut hwritten.declares hfree hps hfault
  | some qs =>
    rw [hqs] at hread hparse
    cases hps : params f.inputs with
    | error e =>
      rw [hps] at hread
      exact False.elim hread
    | ok ps =>
      rw [hps] at hread
      have hparsed := eq_ok_of_toOption hparse
      cases hvalues : decodeValues ps data with
      | error e => exact callsAlike_of_misfit hselects hne hcall hcut hps hparsed hread hvalues
      | ok values =>
        have hnames := map_nonBlankName?_of_params hps fun a ha => (hwritten.name a ha).1
        exact callsAlike_of_values hselects hne hcall hcut hps hparsed hread hvalues hnames
          hwritten.nodup hwritten.calldata_notMem

end

/-- A specification that decodes calls of one function. -/
def calling (f : Function) : Specification := ⟨none, "", 0, 0, .contract (soleInterface f), none⟩

/-- A call of a function, decoded by the interface of this function alone. -/
def decodedCall [Memory] (f : Function) (data : List UInt8) : Decoding :=
  run (calling f) (f.selector ++ data)

/-- A call of a function, the bytes behind its selector decoded by a declaration. -/
def decodedCut [Memory] (f : Function) (text : String) (data : List UInt8) : Decoding :=
  run (bare (calldataMode text)) (f.selector ++ data)

/-- A function with a list of structs, not all of whose fields have names, and with a pair. -/
def sampleFunction : Function :=
  ⟨"pay", [⟨"order", "tuple[]", none, [⟨"to", "address", none, []⟩, ⟨"", "uint8", none, []⟩]⟩,
    ⟨"kinds", "Lib.Kind[2]", none, []⟩], [], .nonpayable⟩

/-- The parameters of the sample function as they are written. -/
def sampleWritten : List Written :=
  [.tuple true
      [.elementary "address".toList ⟨[], [], [], some (spaced "to"), []⟩,
        .elementary "uint8".toList ⟨[' '], [], [], none, []⟩]
      ⟨[], [⟨[], none, []⟩], [spaced "memory"], some (spaced "order"), []⟩,
    .elementary "Lib.Kind".toList ⟨[' '], [⟨[], some 2, []⟩], [], some (spaced "kinds"), []⟩]

/-- The parameters of the sample function are written. -/
theorem sampleFunction_isWrittenAs : sampleFunction.IsWrittenAs sampleWritten := by
  have hlist : TypeText.parse? "tuple[]".toList = some (.named "tuple".toList [none]) := by rfl
  have haddress : TypeText.parse? "address".toList = some (.named "address".toList []) := by rfl
  have hbyte : TypeText.parse? "uint8".toList = some (.named "uint8".toList []) := by rfl
  have hkind : TypeText.parse? "Lib.Kind".toList = some (.named "uint8".toList []) := by rfl
  have hkinds : TypeText.parse? "Lib.Kind[2]".toList = some (.named "uint8".toList [some 2]) := by
    rfl
  refine ⟨by simp [sampleFunction], by simp [sampleFunction], by decide, by decide +kernel, ?_⟩
  refine ⟨_, _, rfl, ⟨rfl, _, hlist, ?_, rfl⟩, ⟨_, _, rfl, ⟨rfl, _, hkinds, ?_⟩, rfl⟩⟩
  · exact ⟨_, _, rfl, ⟨rfl, _, haddress, specifier?_of_parse? haddress⟩,
      ⟨_, _, rfl, ⟨rfl, _, hbyte, specifier?_of_parse? hbyte⟩, rfl⟩⟩
  · exact specifier?_of_parse? hkind

attribute [local instance] Memory.usual

/-- The sample function is decoded alike in both ways. -/
theorem sampleFunction_callsAlike :
    (soleInterface sampleFunction).Selects sampleFunction ∧
    sampleFunction.IsWrittenAs sampleWritten ∧
    (∀ n ∈ typeNamesOf sampleWritten, '.' ∈ n → KeywordFree n) ∧
    declaration sampleWritten = "tuple(address to, uint8)[] memory order, Lib.Kind[2] kinds" ∧
    CallsAlike sampleWritten (decodedCall sampleFunction [0])
      (decodedCut sampleFunction (declaration sampleWritten) [0]) := by
  have hselects := soleInterface_selects sampleFunction
  have hpoints : ∀ n ∈ typeNamesOf sampleWritten, '.' ∈ n → KeywordFree n := by
    have hfree : ∀ n ∈ typeNamesOf sampleWritten, keyword ∉ identifierRuns n := by decide
    exact fun n hn _ => hfree n hn
  have hne : ([0] : List UInt8) ≠ [] := List.cons_ne_nil 0 []
  exact ⟨hselects, sampleFunction_isWrittenAs, hpoints, by rfl,
    callsAlike_of_isWrittenAs hselects sampleFunction_isWrittenAs hpoints hne rfl rfl⟩

section

variable {f : Function} {text : String} {data : List UInt8} {ps : List Param} {e : DecodeFault}

/-- If the parameters do not resolve, the call fails with their fault. -/
theorem decodedCall_of_unresolved [Memory] (h : params f.inputs = .error e) (data : List UInt8) :
    decodedCall f data = failed (calling f) (f.selector ++ data) [] e :=
  run_of_readCall_error rfl (readCall_of_unresolved (soleInterface_selects f) h)

/-- If the parameters resolve and the data fit them, the call is resolved. -/
theorem isResolved_decodedCall [Memory] (h : params f.inputs = .ok ps) {values : List Value}
    (hvalues : decodeValues ps data = .ok values) : (decodedCall f data).isResolved = true := by
  obtain ⟨result, hrun, -⟩ := @run_of_readCall (calling f) (soleInterface f) _ _ rfl _
    (readCall_of_values (soleInterface_selects f) h hvalues)
  rw [decodedCall, hrun]
  rfl

/-- If a declaration is not accepted, its fault is the cause of that of the target. -/
theorem decodedCut_of_unaccepted [Memory] (f : Function) (h : Declaration.parse [text] = .error e)
    (hne : data ≠ []) :
    decodedCut f text data = failed (bare (calldataMode text)) (f.selector ++ data)
      [Portals.rawPiece "calldata" data] (.targetFault "calldata" [text] e) := by
  have hfails : paramPieces [text] data = .error e := by
    unfold paramPieces
    rw [h]
  exact run_of_calldata_error rfl (length_selector f) hne hfails

/-- If a declaration is accepted and the data fit it, the data are resolved. -/
theorem isResolved_decodedCut [Memory]
    (f : Function) (h : Declaration.parse [text] = .ok ps) (hne : data ≠ [])
    {values : List Value} (hvalues : decodeValues ps data = .ok values) :
    (decodedCut f text data).isResolved = true := by
  rw [decodedCut, run_of_calldata rfl (length_selector f) hne (paramPieces_of_values h hvalues)]
  rfl

end

/-- A function with one parameter. -/
def unary (type : String) (components : List Argument) : Function :=
  ⟨"f", [⟨"x", type, none, components⟩], [], .view⟩

/-- A parameter that is written as its type and its name. -/
def plain (type : String) : Written :=
  .elementary type.toList ⟨[], [], [], some (spaced "x"), []⟩

/-- A function with one parameter whose type is the name of one is written plainly. -/
theorem unary_isWrittenAs {type : String} {identifier : List Char}
    (h : TypeText.parse? type.toList = some (.named identifier []))
    (hlaid : AreLaidOut [plain type]) : (unary type []).IsWrittenAs [plain type] where
  nonempty := List.cons_ne_nil _ _
  named := List.forall_mem_singleton.mpr (by simp)
  nodup := by simp [unary]
  laidOut := hlaid
  declares := ⟨_, _, rfl, ⟨rfl, _, h, specifier?_of_parse? h⟩, rfl⟩

/-- A parameter of an unknown type makes both decodes fail, but each blames it in its own words. -/
theorem unknownType_decoded [Memory] :
    (unary "foo" []).IsWrittenAs [plain "foo"] ∧ declaration [plain "foo"] = "foo x" ∧
    (decodedCall (unary "foo" []) [0]).error =
      some (.malformedDeclaration "foo x" "invalid type string: foo") ∧
    (decodedCut (unary "foo" []) "foo x" [0]).error =
      some (.targetFault "calldata" ["foo x"]
        (.malformedDeclaration "foo x" "unknown type \"foo\": invalid type string: foo")) := by
  have hspecifier : TypeText.parse? "foo".toList = some (.named "foo".toList []) := by rfl
  have hparams : params (unary "foo" []).inputs =
      .error (.malformedDeclaration "foo x" "invalid type string: foo") := by
    with_unfolding_all rfl
  have hparse : Declaration.parse ["foo x"] =
      .error (.malformedDeclaration "foo x" "unknown type \"foo\": invalid type string: foo") := by
    with_unfolding_all rfl
  refine ⟨unary_isWrittenAs hspecifier (by decide +kernel), by rfl, ?_, ?_⟩
  · rw [decodedCall_of_unresolved hparams]
    rfl
  · rw [decodedCut_of_unaccepted _ hparse (List.cons_ne_nil 0 [])]
    rfl

/-- A type of a library that has the keyword of structs behind its point is one that the interface
knows, but a declaration takes it for the start of a struct. -/
theorem keywordType_decoded [Memory] :
    (unary "a.struct" []).IsWrittenAs [plain "a.struct"] ∧
    declaration [plain "a.struct"] = "a.struct x" ∧
    (decodedCall (unary "a.struct" []) (List.replicate 32 0)).isResolved = true ∧
    (decodedCut (unary "a.struct" []) "a.struct x" (List.replicate 32 0)).isResolved = false := by
  have hspecifier : TypeText.parse? "a.struct".toList = some (.named "uint8".toList []) := by rfl
  have hparams : params (unary "a.struct" []).inputs =
      .ok [⟨some "x", "a.struct", .uint 8, []⟩] := by
    rw [unary, params, Argument.param, resolve_of_specifier hspecifier]
    rfl
  have hvalues : decodeValues [⟨some "x", "a.struct", .uint 8, []⟩] (List.replicate 32 0) =
      .ok [.uint 0] := by rfl
  have hparse : Declaration.parse ["a.struct x"] =
      .error (.malformedDeclaration "a.struct x" "struct definition is missing '\x7b'") := by
    with_unfolding_all rfl
  refine ⟨unary_isWrittenAs hspecifier (by decide +kernel), by rfl,
    isResolved_decodedCall hparams hvalues, ?_⟩
  rw [decodedCut_of_unaccepted _ hparse (by simp)]
  rfl

/-- A pair of structs of one byte, with blanks around its size. -/
def paddedPair : List Written :=
  [.tuple false [.elementary "uint8".toList ⟨[], [], [], some (spaced "a"), []⟩]
    ⟨[], [⟨[' '], some 2, [' ']⟩], [], some (spaced "x"), []⟩]

/-- Blanks around the size of an array are allowed in a declaration, but the type of a parameter
with components is no specifier with them. -/
theorem paddedType_decoded :
    AreLaidOut paddedPair ∧ declaration paddedPair = "(uint8 a)[ 2 ] x" ∧
    (decodedCall (unary "tuple[ 2 ]" [⟨"a", "uint8", none, []⟩])
      (List.replicate 64 0)).isResolved = false ∧
    (decodedCut (unary "tuple[ 2 ]" [⟨"a", "uint8", none, []⟩]) "(uint8 a)[ 2 ] x"
      (List.replicate 64 0)).isResolved = true := by
  have hmalformed : TypeText.parse? "tuple[ 2 ]".toList = none := by rfl
  have hparams : params (unary "tuple[ 2 ]" [⟨"a", "uint8", none, []⟩]).inputs =
      .error (.malformedDeclaration "tuple[ 2 ] x" "parser error") := by
    rw [unary, params, Argument.param, resolve_of_malformed hmalformed]
    rfl
  have hlaid : AreLaidOut paddedPair := by decide +kernel
  have hwritten : params? elementaryType? paddedPair = some
      [⟨some "x", "(uint8,)[2]", .fixedArray (.tuple [.uint 8]) 2,
        [⟨some "a", "uint8", .uint 8, []⟩]⟩] := by rfl
  have hparse := @toOption_parse_of_known [paddedPair] _
    (List.forall_mem_singleton.mpr (List.cons_ne_nil _ _))
    (List.forall_mem_singleton.mpr hlaid) hwritten
  have htext : declaration paddedPair = "(uint8 a)[ 2 ] x" := by rfl
  have hvalues : decodeValues [⟨some "x", "(uint8,)[2]", .fixedArray (.tuple [.uint 8]) 2,
      [⟨some "a", "uint8", .uint 8, []⟩]⟩] (List.replicate 64 0) =
      .ok [.array [.struct [("a", .uint 0)], .struct [("a", .uint 0)]]] := by rfl
  rw [List.map_singleton, htext] at hparse
  refine ⟨hlaid, htext, ?_,
    isResolved_decodedCut _ (eq_ok_of_toOption hparse) (by simp) hvalues⟩
  rw [decodedCall_of_unresolved hparams]
  rfl

/-- The decodes do not come to the same in all cases: each words the same cause in its own way, and a
type with the keyword of structs or with blanks in it is one for one of them only. -/
theorem not_forall_callsAlike :
    (¬ ∀ f ws data, f.IsWrittenAs ws → data ≠ [] → ∀ e, ((decodedCall f data).error = some e ↔
      (decodedCut f (declaration ws) data).error =
        some (.targetFault "calldata" [declaration ws] e))) ∧
    (¬ ∀ f ws data, f.IsWrittenAs ws → data ≠ [] → ((decodedCall f data).isResolved = true ↔
      (decodedCut f (declaration ws) data).isResolved = true)) ∧
    (decodedCall (unary "tuple[ 2 ]" [⟨"a", "uint8", none, []⟩])
      (List.replicate 64 0)).isResolved = false ∧
    (decodedCut (unary "tuple[ 2 ]" [⟨"a", "uint8", none, []⟩]) "(uint8 a)[ 2 ] x"
      (List.replicate 64 0)).isResolved = true := by
  refine ⟨fun hall => ?_, fun hall => ?_, paddedType_decoded.2.2⟩
  · obtain ⟨hwritten, htext, hcall, hcut⟩ := unknownType_decoded
    have hsame := (hall _ _ [0] hwritten (List.cons_ne_nil 0 []) _).mp hcall
    rw [htext, hcut] at hsame
    have hcause := (DecodeFault.targetFault.inj (Option.some.inj hsame)).2.2
    exact absurd (DecodeFault.malformedDeclaration.inj hcause).2 (by decide)
  · obtain ⟨hwritten, htext, hcall, hcut⟩ := keywordType_decoded
    have hsame := (hall _ _ (List.replicate 32 0) hwritten (by simp)).mp hcall
    rw [htext, hcut] at hsame
    cases hsame

end RollupInput.Contract
