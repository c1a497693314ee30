import RollupInput.Proofs.Contract.Declared
import RollupInput.Proofs.Declaration.Unknown

/-!
# The cause for which parameters do not resolve

Parameters of an interface that do not resolve, and a declaration that writes them, fail for the
same cause: the first name in them that is the name of no type.
-/

namespace RollupInput.Declaration

open Abi

mutual

/-- The specifier of a written type fails for the first name in it that is no type. -/
theorem Written.fault?_ofText (w : Written) {t : TypeText} (h : w.specifier? = some t) :
    fault? (AbiType.ofText t) = firstCause? w.typeNames := by
  cases w with
  | elementary type around =>
    obtain ⟨identifier, hparse, rfl⟩ := exists_of_specifier? h
    rw [AbiType.ofText, fault?_map, Written.typeNames, firstCause?, List.findSome?_singleton,
      parse_of_parse? hparse]
  | emptyTuple marked gap around =>
    rw [Written.specifier?] at h
    cases h
    rw [AbiType.ofText, fault?_map, AbiType.ofTexts]
    rfl
  | tuple marked fields around =>
    rw [Written.specifier?] at h
    obtain ⟨ts, hts, rfl⟩ := Option.map_eq_some_iff.mp h
    rw [AbiType.ofText, fault?_map, fault?_ofTexts fields hts, Written.typeNames]

/-- The specifiers of fields fail for the first name in them that is no type. -/
theorem fault?_ofTexts (ws : List Written) {ts : List TypeText} (h : specifiers? ws = some ts) :
    fault? (AbiType.ofTexts ts) = firstCause? (typeNamesOf ws) := by
  cases ws with
  | nil =>
    rw [specifiers?] at h
    cases h
    rw [AbiType.ofTexts]
    rfl
  | cons w rest =>
    rw [specifiers?] at h
    split at h
    · cases h
    · obtain ⟨t, ht, h⟩ := Option.bind_eq_some_iff.mp h
      obtain ⟨more, hmore, rfl⟩ := Option.map_eq_some_iff.mp h
      have hfirst := Written.fault?_ofText w ht
      have hrest := fault?_ofTexts rest hmore
      rw [firstCause?, typeNamesOf, List.findSome?_append, ← firstCause?, ← firstCause?, ← hfirst,
        ← hrest, AbiType.ofTexts]
      cases AbiType.ofText t with
      | error e => rfl
      | ok u =>
        dsimp only
        rw [fault?_map]
        rfl

end

end RollupInput.Declaration

namespace RollupInput.Contract

open Abi Declaration

/-- A parameter with components fails for the cause of the components. -/
theorem fault?_resolve_of_components {name type : String} {internalType : Option String}
    {t : TypeText} (h : TypeText.parse? type.toList = some t) (c : Argument)
    (rest : List Argument) :
    fault? (Argument.resolve ⟨name, type, internalType, c :: rest⟩) =
      fault? (resolveAll (c :: rest)) := by
  rw [Argument.resolve, h]
  dsimp only
  rw [List.isEmpty_cons, if_neg Bool.false_ne_true, fault?_map]

/-- The components of a parameter that is resolved are resolved. -/
theorem fault?_resolveAll_of_resolve {name type : String} {internalType : Option String}
    {components : List Argument} {t : AbiType}
    (h : Argument.resolve ⟨name, type, internalType, components⟩ = .ok t) :
    fault? (resolveAll components) = none := by
  cases hparse : TypeText.parse? type.toList with
  | none =>
    rw [resolve_of_malformed hparse] at h
    cases h
  | some written =>
    cases components with
    | nil =>
      rw [resolveAll]
      rfl
    | cons c rest =>
      rw [← fault?_resolve_of_components hparse, h]
      rfl

/-- Parameters fail for the cause of the first, or else of the others. -/
theorem fault?_resolveAll_cons (a : Argument) (rest : List Argument) :
    fault? (resolveAll (a :: rest)) = (fault? a.resolve).or (fault? (resolveAll rest)) := by
  rw [resolveAll]
  cases a.resolve with
  | error e => rfl
  | ok t =>
    dsimp only
    rw [fault?_map]
    rfl

mutual

/-- A parameter that is written fails for the first name in it that is no type. -/
theorem fault?_resolve : (w : Written) → (a : Argument) → Declares w a →
    fault? a.resolve = firstCause? w.typeNames
  | w, ⟨_, _, _, []⟩, ⟨_, _, hparse, h⟩ => by
    rw [resolve_of_specifier hparse]
    exact Written.fault?_ofText w h
  | .tuple _ fields _, ⟨_, _, _, c :: rest⟩, ⟨_, _, hparse, hfields, _⟩ => by
    rw [fault?_resolve_of_components hparse, Written.typeNames]
    exact fault?_resolveAll fields (c :: rest) hfields

/-- Parameters that are written fail for the first name in them that is no type. -/
theorem fault?_resolveAll : (ws : List Written) → (as : List Argument) → DeclareAll ws as →
    fault? (resolveAll as) = firstCause? (typeNamesOf ws)
  | _, [], rfl => by
    rw [resolveAll]
    rfl
  | _, a :: rest, ⟨w, more, rfl, hw, hmore⟩ => by
    rw [fault?_resolveAll_cons, fault?_resolve w a hw, fault?_resolveAll more rest hmore,
      typeNamesOf, firstCause?, firstCause?, firstCause?, List.findSome?_append]

end

mutual

/-- A parameter that fails blames a text for the cause for which it is not resolved. -/
theorem exists_cause_of_param : (a : Argument) → {e : DecodeFault} → a.param = .error e →
    ∃ text cause, fault? a.resolve = some cause ∧
      e = .malformedDeclaration text (String.ofList cause.message)
  | ⟨name, type, internalType, components⟩, e, h => by
    rw [Argument.param] at h
    split at h
    · next cause hresolve =>
      cases h
      exact ⟨_, cause, by rw [hresolve]; rfl, rfl⟩
    · next t hresolve =>
      obtain ⟨text, cause, hcause, rfl⟩ := exists_cause_of_params components (error_of_map h)
      rw [fault?_resolveAll_of_resolve hresolve] at hcause
      cases hcause

/-- Parameters that fail blame a text for the cause for which they are not resolved. -/
theorem exists_cause_of_params : (as : List Argument) → {e : DecodeFault} → params as = .error e →
    ∃ text cause, fault? (resolveAll as) = some cause ∧
      e = .malformedDeclaration text (String.ofList cause.message)
  | [], e, h => by
    rw [params] at h
    cases h
  | a :: rest, e, h => by
    rw [params] at h
    rw [fault?_resolveAll_cons]
    cases ha : a.param with
    | error e' =>
      rw [ha] at h
      cases h
      obtain ⟨text, cause, hcause, rfl⟩ := exists_cause_of_param a ha
      exact ⟨text, cause, by rw [hcause]; rfl, rfl⟩
    | ok p =>
      rw [ha] at h
      have hrest := error_of_map h
      obtain ⟨text, cause, hcause, rfl⟩ := exists_cause_of_params rest hrest
      rw [resolve_of_param ha]
      exact ⟨text, cause, hcause, rfl⟩

end

/-- Whether what a declaration is blamed for is the cause that is given elsewhere, with the unknown
name in it added. -/
def NamesCause (ws : List Written) (reason reason' : String) : Prop :=
  ∃ n ∈ typeNamesOf ws, ∃ cause : TypeFault, reason = String.ofList cause.message ∧
    reason' = (Fault.unknownType n (some cause)).message

/-- Parameters and a declaration that writes them, without the keyword, fail for the same cause. -/
theorem namesCause_of_declareAll {ws : List Written} {as : List Argument} (hne : ws ≠ [])
    (hlaid : AreLaidOut ws) (hdeclares : DeclareAll ws as)
    (hfree : ∀ n ∈ typeNamesOf ws, KeywordFree n) {blamed blamed' reason reason' : String}
    (hparams : params as = .error (.malformedDeclaration blamed reason))
    (hparse : Declaration.parse [declaration ws] = .error (.malformedDeclaration blamed' reason')) :
    NamesCause ws reason reason' := by
  have hnames := exists_of_declareAll ws as hdeclares
  have htypes : ∀ n ∈ typeNamesOf ws, IsTypeName n ∧ KeywordFree n := fun n hn =>
    ⟨IsSpecifierName.isTypeName ⟨hnames n hn, fun _ => hfree n hn⟩, hfree n hn⟩
  obtain ⟨text, cause, hcause, heq⟩ := exists_cause_of_params as hparams
  obtain ⟨fault, hfault, heq'⟩ := exists_firstUnknown_of_parse hne hlaid htypes hparse
  obtain ⟨n, hn, cause', hfirst, rfl⟩ := exists_of_firstUnknown? hnames hfault
  rw [fault?_resolveAll ws as hdeclares, hfirst] at hcause
  obtain rfl := Option.some.inj hcause
  exact ⟨n, hn, cause', (DecodeFault.malformedDeclaration.inj heq).2,
    (DecodeFault.malformedDeclaration.inj heq').2⟩

end RollupInput.Contract
