import Mathlib.Data.List.Nodup
import RollupInput.Proofs.Contract.Blamed
import RollupInput.Proofs.Contract.Calls
import RollupInput.Proofs.Contract.Order
import RollupInput.Proofs.Decoding.Faults
import RollupInput.Proofs.Keccak

/-!
# Functions by their selectors

The function of a call is looked for by its selector alone. Where no two functions have the same
selector, at most one can be found, so neither the order of the items of an interface nor the events
and errors among them make a difference. An interface is made of the items that it is given, in
another order, and whether some items make one at all is a matter of the kinds of which there may be
one item only; both do not change when the items are rearranged.
-/

namespace RollupInput.Contract

open Abi Declaration

/-- The function that an item is, if it is one. -/
def Item.function? : Item → Option Function
  | .function f => some f
  | _ => none

/-- Whether an item is an event or an error. -/
def Item.isReport : Item → Bool
  | .event _ | .error _ => true
  | _ => false

/-- The kind of an item, if an interface has only one item of the kind. -/
def Item.soleKind? : Item → Option Kind
  | .constructor _ => some .constructor
  | .fallback _ => some .fallback
  | .receive _ => some .receive
  | _ => none

/-- The functions among some items, in order. -/
def functionsOf (items : List Item) : List Function := items.filterMap Item.function?

/-- The kinds of the items of which there may be only one of a kind. -/
def soleKinds (items : List Item) : List Kind := items.filterMap Item.soleKind?

/-- Whether items are the same but for their order, and for the events and errors among them. -/
def Rearranges (items others : List Item) : Prop :=
  (items.filter fun item => !item.isReport).Perm (others.filter fun item => !item.isReport)

/-- The name under which an argument is listed: its own without the blanks around it, else its type
as it is written. -/
def Argument.listedName (a : Argument) : String := (Text.nonBlank? a.name).getD a.type

/-- The call of a function with some values. -/
def Function.called (f : Function) (values : List Value) : Call :=
  ⟨f.name, f.signature, values, (f.inputs.map Argument.listedName).zip values⟩

/-- Whether a call is read by the function, among some with different selectors, that has the
selector in front of the calldata. -/
structure ReadsBySelector [Memory]
    (functions : List Function) (abi : Interface) (calldata : List UInt8) :
    Prop where
  /-- The selector is unknown exactly if no function has it, and it is quoted as far as it is there. -/
  unknown_iff : ∀ text, abi.readCall calldata = .error (.unknownSelector text) ↔
    text = Text.Hex.ofBytes (calldata.take selectorSize) ∧
      ∀ f ∈ functions, f.selector ≠ calldata.take selectorSize
  /-- So it is where the calldata are too short for a selector. -/
  short : calldata.length < selectorSize →
    abi.readCall calldata = .error (.unknownSelector (Text.Hex.ofBytes calldata))
  /-- If a parameter of the function that has the selector does not resolve, a parameter is blamed. -/
  unresolved : ∀ f ∈ functions, f.selector = calldata.take selectorSize →
    (∃ a ∈ f.inputs, ∃ fault, a.resolve = .error fault) →
      ∃ declaration reason, abi.readCall calldata = .error (.malformedDeclaration declaration reason)
  /-- If all of them resolve, what is behind the selector is decoded for them. -/
  resolved : ∀ f ∈ functions, f.selector = calldata.take selectorSize →
    (∀ a ∈ f.inputs, ∃ t, a.resolve = .ok t) →
      ∃ ps, params f.inputs = .ok ps ∧
        abi.readCall calldata = (decodeValues ps (calldata.drop selectorSize)).map f.called

/-! ## Items that make an interface -/

/-- Nothing is taken of items of a kind of which nothing is taken. -/
theorem filterMap_map_eq_nil {α β : Type} (f : Item → Option β) (wrap : α → Item)
    (h : ∀ a, f (wrap a) = none) (as : List α) : (as.map wrap).filterMap f = [] :=
  List.filterMap_eq_nil_iff.mpr (List.forall_mem_map.mpr fun a _ => h a)

/-- The kinds of an interface of which it has one item are those of its single items. -/
theorem soleKinds_items (abi : Interface) :
    soleKinds abi.items = (abi.constructor?.map fun _ => Kind.constructor).toList ++
      (abi.fallback?.map fun _ => Kind.fallback).toList ++
      (abi.receive?.map fun _ => Kind.receive).toList := by
  unfold soleKinds Interface.items
  simp only [List.filterMap_append, filterMap_map_eq_nil Item.soleKind? Item.function (fun _ => rfl),
    filterMap_map_eq_nil Item.soleKind? Item.event (fun _ => rfl),
    filterMap_map_eq_nil Item.soleKind? Item.error (fun _ => rfl), List.append_nil]
  cases abi.constructor? <;> cases abi.fallback? <;> cases abi.receive? <;> rfl

/-- No kind comes twice among the single items of an interface. -/
theorem nodup_soleKinds_items (abi : Interface) : (soleKinds abi.items).Nodup := by
  rw [soleKinds_items]
  cases abi.constructor? <;> cases abi.fallback? <;> cases abi.receive? <;> simp

/-- An item is not added exactly if the interface has a single item of its kind. -/
theorem add?_eq_none_iff (abi : Interface) (item : Item) :
    abi.add? item = none ↔ ∃ kind, item.soleKind? = some kind ∧ kind ∈ soleKinds abi.items := by
  rw [soleKinds_items]
  cases item <;> cases hc : abi.constructor? <;> cases hf : abi.fallback? <;>
    cases hr : abi.receive? <;> simp [Interface.add?, Item.soleKind?, hc, hf, hr]

/-- Items can be added exactly if no kind comes twice among the single ones, old and new. -/
theorem isSome_foldlM_add?_iff (items : List Item) (abi : Interface) :
    (items.foldlM Interface.add? abi).isSome = true ↔ (soleKinds (items ++ abi.items)).Nodup := by
  induction items generalizing abi with
  | nil => simpa using nodup_soleKinds_items abi
  | cons item rest ih =>
    rw [List.foldlM_cons]
    cases hadd : abi.add? item with
    | none =>
      obtain ⟨kind, hkind, hmem⟩ := (add?_eq_none_iff abi item).mp hadd
      have hbehind : kind ∈ soleKinds (rest ++ abi.items) := by
        rw [soleKinds, List.filterMap_append]
        exact List.mem_append_right _ hmem
      have hcons : soleKinds (item :: rest ++ abi.items) = kind :: soleKinds (rest ++ abi.items) :=
        List.filterMap_cons_some hkind
      rw [hcons, List.nodup_cons]
      exact ⟨fun h => Bool.noConfusion h, fun h => absurd hbehind h.1⟩
    | some next =>
      have hperm : (rest ++ next.items).Perm (item :: rest ++ abi.items) :=
        ((Interface.perm_items_add? hadd).append_left rest).trans List.perm_middle
      exact (ih next).trans (hperm.filterMap Item.soleKind?).nodup_iff

/-- Some items make an interface exactly if no kind comes twice among the single ones. -/
theorem isSome_ofItems?_iff (items : List Item) :
    (Interface.ofItems? items).isSome = true ↔ (soleKinds items).Nodup := by
  have h := isSome_foldlM_add?_iff items Interface.empty
  have hempty : Interface.empty.items = [] := rfl
  rwa [hempty, List.append_nil] at h

/-- The functions of an interface are those among its items. -/
theorem functionsOf_items (abi : Interface) : functionsOf abi.items = abi.functions := by
  have hall (fs : List Function) : (fs.map Item.function).filterMap Item.function? = fs := by
    rw [List.filterMap_map]
    exact List.filterMap_some
  unfold functionsOf Interface.items
  simp only [List.filterMap_append, hall,
    filterMap_map_eq_nil Item.function? Item.event (fun _ => rfl),
    filterMap_map_eq_nil Item.function? Item.error (fun _ => rfl), List.append_nil]
  cases abi.constructor? <;> cases abi.fallback? <;> cases abi.receive? <;> rfl

/-- The functions of an interface are those that it is made of, in the order of their names. -/
theorem perm_functions_of_ofItems? {items : List Item} {abi : Interface}
    (h : Interface.ofItems? items = some abi) : abi.functions.Perm (functionsOf items) := by
  rw [← functionsOf_items]
  exact (Interface.perm_items_of_ofItems? h).filterMap Item.function?

section

variable {items others : List Item}

/-- What is taken of all items but events and errors is the same for rearranged items. -/
theorem Rearranges.perm_filterMap {β : Type} {f : Item → Option β} (h : Rearranges items others)
    (hreport : ∀ item, item.isReport = true → f item = none) :
    (items.filterMap f).Perm (others.filterMap f) := by
  have hkept (is : List Item) : (is.filter fun item => !item.isReport).filterMap f = is.filterMap f := by
    rw [List.filterMap_filter]
    congr 1
    funext item
    cases hitem : item.isReport with
    | true => exact (hreport item hitem).symm
    | false => rfl
  have hperm := h.filterMap f
  rwa [hkept, hkept] at hperm

/-- Rearranged items have the same functions. -/
theorem Rearranges.perm_functionsOf (h : Rearranges items others) :
    (functionsOf items).Perm (functionsOf others) := by
  refine h.perm_filterMap fun item hitem => ?_
  cases item <;> first | rfl | cases hitem

/-- Rearranged items make an interface if the items do. -/
theorem Rearranges.exists_ofItems? (h : Rearranges items others) {abi : Interface}
    (hmade : Interface.ofItems? items = some abi) :
    ∃ abi', Interface.ofItems? others = some abi' := by
  have hkinds : (soleKinds items).Perm (soleKinds others) := by
    refine h.perm_filterMap fun item hitem => ?_
    cases item <;> first | rfl | cases hitem
  have hnodup := (isSome_ofItems?_iff items).mp (Option.isSome_of_eq_some hmade)
  exact Option.isSome_iff_exists.mp ((isSome_ofItems?_iff others).mpr (hkinds.nodup_iff.mp hnodup))

end

/-! ## Looking a function up -/

section

variable {abi : Interface} {calldata : List UInt8} {f : Function}

/-- A function that is found has the selector. -/
theorem of_functionOf? (h : abi.functionOf? calldata = some f) :
    f ∈ abi.functions ∧ f.selector = calldata.take selectorSize := by
  have hfound := List.find?_some h
  exact ⟨List.mem_of_find?_eq_some h, beq_iff_eq.mp hfound⟩

/-- No function is found exactly if none has the selector. -/
theorem functionOf?_eq_none_iff : abi.functionOf? calldata = none ↔
    ∀ f ∈ abi.functions, f.selector ≠ calldata.take selectorSize := by
  simp [Interface.functionOf?, List.find?_eq_none]

/-- Of functions with different selectors, the one that has the selector is found. -/
theorem functionOf?_eq_some_iff (hdistinct : (abi.functions.map Function.selector).Nodup) :
    abi.functionOf? calldata = some f ↔
      f ∈ abi.functions ∧ f.selector = calldata.take selectorSize := by
  refine ⟨of_functionOf?, ?_⟩
  rintro ⟨hf, hselector⟩
  cases h : abi.functionOf? calldata with
  | none => exact absurd hselector (functionOf?_eq_none_iff.mp h f hf)
  | some g =>
    obtain ⟨hg, hfound⟩ := of_functionOf? h
    rw [List.inj_on_of_nodup_map hdistinct hg hf (hfound.trans hselector.symm)]

/-- Too few bytes are the selector of no function. -/
theorem selector_ne_of_short (h : calldata.length < selectorSize) (f : Function) :
    f.selector ≠ calldata.take selectorSize := by
  intro heq
  have hlength := congrArg List.length heq
  rw [length_selector, List.length_take] at hlength
  omega

end

/-! ## The parameters of a function -/

/-- A text that opens a list of specifiers is not blank. -/
theorem exists_mem_of_opening? {cs rest : List Char} (h : TypeText.opening? cs = some rest) :
    ∃ c ∈ cs, Text.isBlank c = false := by
  unfold TypeText.opening? at h
  split at h
  · exact ⟨'(', List.mem_cons_self, rfl⟩
  · unfold Text.after? at h
    split at h
    · next htuple =>
      obtain ⟨behind, rfl⟩ := List.isPrefixOf_iff_prefix.mp htuple
      exact ⟨'t', List.mem_cons_self, rfl⟩
    · cases h

/-- A text from which a specifier is read is not blank. -/
theorem exists_mem_of_read? {steps levels : Nat} {cs : List Char} {p : TypeText × List Char}
    (h : TypeText.read? steps levels cs = some p) : ∃ c ∈ cs, Text.isBlank c = false := by
  match steps, levels with
  | 0, _ => cases h
  | _ + 1, 0 => cases h
  | steps + 1, levels + 1 =>
    cases hopening : TypeText.opening? cs with
    | some rest => exact exists_mem_of_opening? hopening
    | none =>
      rw [TypeText.read?, hopening] at h
      obtain ⟨name, hname, -⟩ := Option.bind_eq_some_iff.mp h
      obtain ⟨q, hq, -⟩ := Option.map_eq_some_iff.mp hname
      obtain ⟨rfl, hne, hchars⟩ := of_readIdentifier? hq
      obtain ⟨c, hc⟩ := List.exists_mem_of_ne_nil _ hne
      exact ⟨c, List.mem_append_left _ hc, Text.isBlank_of_isIdentifierChar (hchars c hc)⟩

/-- A parameter that resolves has a type that is not blank. -/
theorem isSome_nonBlank?_of_resolve {a : Argument} {t : AbiType} (h : a.resolve = .ok t) :
    (Text.nonBlank? a.type).isSome = true := by
  obtain ⟨name, type, internalType, components⟩ := a
  cases hparse : TypeText.parse? type.toList with
  | none =>
    rw [resolve_of_malformed hparse] at h
    cases h
  | some written =>
    obtain ⟨c, hc, hblank⟩ : ∃ c ∈ type.toList, Text.isBlank c = false := by
      unfold TypeText.parse? at hparse
      split at hparse
      · next u hread => exact exists_mem_of_read? hread
      · cases hparse
    exact Text.isSome_nonBlank?_of_mem hc hblank

/-- Parameters resolve exactly if each does. -/
theorem exists_resolveAll_iff (as : List Argument) :
    (∃ ts, resolveAll as = .ok ts) ↔ ∀ a ∈ as, ∃ t, a.resolve = .ok t := by
  induction as with
  | nil => simp [resolveAll]
  | cons a rest ih =>
    rw [List.forall_mem_cons, ← ih, resolveAll]
    cases a.resolve with
    | error fault => simp
    | ok t => cases resolveAll rest <;> simp [Except.map]

/-- The parameters of a function are there if all of them resolve. -/
theorem exists_params_of_resolve {as : List Argument} (h : ∀ a ∈ as, ∃ t, a.resolve = .ok t) :
    ∃ ps, params as = .ok ps := by
  obtain ⟨ts, hts⟩ := (exists_resolveAll_iff as).mpr h
  cases hparams : params as with
  | ok ps => exact ⟨ps, rfl⟩
  | error e =>
    obtain ⟨-, cause, hcause, -⟩ := exists_cause_of_params as hparams
    rw [hts] at hcause
    cases hcause

/-- If one does not resolve, a parameter is blamed. -/
theorem params_of_unresolved {as : List Argument} {a : Argument} (ha : a ∈ as) {fault : TypeFault}
    (h : a.resolve = .error fault) :
    ∃ declaration reason, params as = .error (.malformedDeclaration declaration reason) := by
  cases hparams : params as with
  | ok ps =>
    obtain ⟨t, ht⟩ := (exists_resolveAll_iff as).mp ⟨_, resolveAll_of_params hparams⟩ a ha
    rw [h] at ht
    cases ht
  | error e =>
    obtain ⟨text, cause, -, rfl⟩ := exists_cause_of_params as hparams
    exact ⟨text, _, rfl⟩

/-- A resolved parameter is listed under the name of its parameter, wherever it stands. -/
theorem argumentName_of_param {a : Argument} {p : Param} (h : a.param = .ok p) (index : Nat) :
    argumentName index p = a.listedName := by
  have hname := name_of_param h
  have hkind : p.kind = a.type := kind_of_param h
  have htype := isSome_nonBlank?_of_resolve (resolve_of_param h)
  unfold argumentName Argument.listedName Param.nonBlankName?
  rw [hname, hkind, htype, Option.bind_some]
  cases Text.nonBlank? a.name with
  | none => exact if_pos rfl
  | some name => rfl

/-- Resolved parameters are listed under the names of the parameters. -/
theorem mapIdx_argumentName_of_params {as : List Argument} {ps : List Param}
    (h : params as = .ok ps) : ps.mapIdx argumentName = as.map Argument.listedName := by
  -- the name does not depend on the place, which the induction moves on
  have hshifted (shift : Nat) : ps.mapIdx (fun index => argumentName (index + shift)) =
      as.map Argument.listedName := by
    induction as generalizing ps shift with
    | nil =>
      rw [params] at h
      cases h
      rfl
    | cons a rest ih =>
      rw [params] at h
      cases ha : a.param with
      | error e =>
        rw [ha] at h
        cases h
      | ok p =>
        rw [ha] at h
        obtain ⟨more, hmore, rfl⟩ := ok_of_map h
        rw [List.mapIdx_cons, List.map_cons, argumentName_of_param ha, ← ih hmore (1 + shift)]
        simp only [Nat.add_assoc]
  exact hshifted 0

/-! ## Reading a call -/

/-- A call of a function whose parameters resolve is read as the values that are decoded for them,
listed under the names of the arguments. -/
theorem readCall_of_resolved [Memory] {abi : Interface} {calldata : List UInt8} {f : Function}
    (hf : abi.functionOf? calldata = some f) {ps : List Param} (hparams : params f.inputs = .ok ps) :
    abi.readCall calldata = (decodeValues ps (calldata.drop selectorSize)).map f.called := by
  rw [readCall_of_params hf hparams, mapIdx_argumentName_of_params hparams]
  rfl

/-- A call is read by the function of its selector. -/
theorem readsBySelector [Memory] {functions : List Function} {abi : Interface}
    (hperm : abi.functions.Perm functions) (hdistinct : (functions.map Function.selector).Nodup)
    (calldata : List UInt8) : ReadsBySelector functions abi calldata := by
  have hfound {f : Function} (hf : f ∈ functions)
      (hselector : f.selector = calldata.take selectorSize) :
      abi.functionOf? calldata = some f :=
    (functionOf?_eq_some_iff ((hperm.map _).nodup_iff.mpr hdistinct)).mpr
      ⟨hperm.mem_iff.mpr hf, hselector⟩
  have hnone : abi.functionOf? calldata = none ↔
      ∀ f ∈ functions, f.selector ≠ calldata.take selectorSize :=
    functionOf?_eq_none_iff.trans (forall_congr' fun f => by rw [hperm.mem_iff])
  refine ⟨fun text => ⟨fun h => ?_, fun h => ?_⟩, fun hshort => ?_, ?_, ?_⟩
  · -- a function that is found fails for its parameters only
    cases hf : abi.functionOf? calldata with
    | none =>
      rw [readCall_of_not_found hf] at h
      exact ⟨(DecodeFault.unknownSelector.inj (Except.error.inj h)).symm, hnone.mp hf⟩
    | some f =>
      cases isOfParams_of_functionOf? hf h
  · rw [h.1, readCall_of_not_found (hnone.mpr h.2)]
  · rw [readCall_of_not_found (hnone.mpr fun f _ => selector_ne_of_short hshort f),
      List.take_of_length_le (Nat.le_of_lt hshort)]
  · rintro f hf hselector ⟨a, ha, fault, hfault⟩
    obtain ⟨declaration, reason, hparams⟩ := params_of_unresolved ha hfault
    exact ⟨declaration, reason, readCall_of_params_error (hfound hf hselector) hparams⟩
  · intro f hf hselector hresolve
    obtain ⟨ps, hps⟩ := exists_params_of_resolve hresolve
    exact ⟨ps, hps, readCall_of_resolved (hfound hf hselector) hps⟩

/-- Interfaces of the same functions, with different selectors, read every call alike. -/
theorem readCall_of_perm [Memory]
    {abi other : Interface} (hperm : other.functions.Perm abi.functions)
    (hdistinct : (abi.functions.map Function.selector).Nodup) (calldata : List UInt8) :
    other.readCall calldata = abi.readCall calldata := by
  have hfound : other.functionOf? calldata = abi.functionOf? calldata := by
    refine Option.ext fun f => ?_
    rw [functionOf?_eq_some_iff ((hperm.map _).nodup_iff.mpr hdistinct),
      functionOf?_eq_some_iff hdistinct, hperm.mem_iff]
  unfold Interface.readCall
  rw [hfound]

/-- Where no two functions among the items of an interface have the same selector, a call is read by
the function of its selector. Rearranged items make an interface as well, and it reads every call as
the interface does. -/
theorem calls_by_selector [Memory] {items : List Item} {abi : Interface}
    (hmade : Interface.ofItems? items = some abi)
    (hdistinct : ((functionsOf items).map Function.selector).Nodup) :
    (∀ others, Rearranges items others → ∃ other, Interface.ofItems? others = some other ∧
      ∀ calldata, other.readCall calldata = abi.readCall calldata) ∧
    ∀ calldata, ReadsBySelector (functionsOf items) abi calldata := by
  have hfunctions := perm_functions_of_ofItems? hmade
  refine ⟨fun others h => ?_, readsBySelector hfunctions hdistinct⟩
  obtain ⟨other, hother⟩ := h.exists_ofItems? hmade
  have hperm : other.functions.Perm abi.functions :=
    (perm_functions_of_ofItems? hother).trans (h.perm_functionsOf.symm.trans hfunctions.symm)
  exact ⟨other, hother, readCall_of_perm hperm ((hfunctions.map _).nodup_iff.mpr hdistinct)⟩

/-- A function of a number without a name. -/
def setNumber : Function := ⟨"set", [⟨"", "uint8", none, []⟩], [], .nonpayable⟩

/-- A function of the same name, of a flag. -/
def setFlag : Function := ⟨"set", [⟨"on", "bool", none, []⟩], [], .nonpayable⟩

/-- Two functions of one name among other items. -/
def overloads : List Item :=
  [.event ⟨"Set", [], false⟩, .function setNumber, .receive .payable, .function setFlag]

/-- The same functions in the other order, with an error in place of the event. -/
def overloadsTurned : List Item :=
  [.function setFlag, .error ⟨"Refused", []⟩, .function setNumber, .receive .payable]

/-- The interface of the two functions. -/
def overloadsInterface : Interface :=
  ⟨none, none, some .payable, [setNumber, setFlag], [⟨"Set", [], false⟩], []⟩

-- The two hashes are evaluated apart from each other, and on lists, which costs the kernel far less.

/-- The selector of the first function. -/
theorem selector_setNumber : setNumber.selector = [36, 184, 186, 95] := by
  rw [Function.selector, Keccak.hash_eq_hashOf]
  decide +kernel

/-- The selector of the second function. -/
theorem selector_setFlag : setFlag.selector = [95, 118, 246, 171] := by
  rw [Function.selector, Keccak.hash_eq_hashOf]
  decide +kernel

attribute [local instance] Memory.usual

/-- A call of each of the two functions is read as one of that function, whatever the order. The
argument that has no name is listed under its type. -/
theorem overloads_by_selector :
    Interface.ofItems? overloads = some overloadsInterface ∧
    ((functionsOf overloads).map Function.selector).Nodup ∧
    Rearranges overloads overloadsTurned ∧
    overloadsInterface.readCall (setNumber.selector ++ wordOfNat 5) =
      .ok ⟨"set", "set(uint8)", [.uint 5], [("uint8", .uint 5)]⟩ ∧
    overloadsInterface.readCall [0xA9, 0x05] = .error (.unknownSelector "0xa905") ∧
    ∃ other, Interface.ofItems? overloadsTurned = some other ∧
      other.readCall (setNumber.selector ++ wordOfNat 5) =
        .ok ⟨"set", "set(uint8)", [.uint 5], [("uint8", .uint 5)]⟩ := by
  have hmade : Interface.ofItems? overloads = some overloadsInterface := by rfl
  have hdistinct : ((functionsOf overloads).map Function.selector).Nodup := by
    have hselectors : (functionsOf overloads).map Function.selector =
        [setNumber.selector, setFlag.selector] := rfl
    rw [hselectors, selector_setNumber, selector_setFlag]
    decide
  have hturned : Rearranges overloads overloadsTurned :=
    @List.perm_append_comm Item [.function setNumber, .receive .payable] [.function setFlag]
  obtain ⟨hothers, hreads⟩ := calls_by_selector hmade hdistinct
  have hselector : setNumber.selector =
      (setNumber.selector ++ wordOfNat 5).take selectorSize := by
    rw [← length_selector setNumber, List.take_left]
  have hmem : setNumber ∈ functionsOf overloads := List.mem_cons_self
  have hparams : params setNumber.inputs = .ok [⟨some "", "uint8", .uint 8, []⟩] := by
    with_unfolding_all rfl
  have hresolve : ∀ a ∈ setNumber.inputs, ∃ t, a.resolve = .ok t :=
    List.forall_mem_singleton.mpr ⟨.uint 8, by with_unfolding_all rfl⟩
  have hcall : overloadsInterface.readCall (setNumber.selector ++ wordOfNat 5) =
      .ok ⟨"set", "set(uint8)", [.uint 5], [("uint8", .uint 5)]⟩ := by
    obtain ⟨ps, hps, hcall⟩ := (hreads _).resolved setNumber hmem hselector hresolve
    rw [hparams] at hps
    cases hps
    rw [hcall, drop_selector]
    rfl
  obtain ⟨other, hother, hsame⟩ := hothers _ hturned
  exact ⟨hmade, hdistinct, hturned, hcall, (hreads _).short (by decide), other, hother,
    (hsame _).trans hcall⟩

end RollupInput.Contract
