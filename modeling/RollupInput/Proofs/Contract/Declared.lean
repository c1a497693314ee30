import RollupInput.Contract.Call
import RollupInput.Proofs.Abi.Agreement
import RollupInput.Proofs.Declaration.Specifiers

/-!
# Parameters of interfaces as declarations

When a declaration writes the parameters of an interface: it has their names, a tuple of the same
fields for every parameter with components, and else a type that is the specifier of the
parameter. Such a declaration and the parameters resolve to parameters that agree, or neither
resolves. The induction is on the parameters, and inside of a specifier on the declaration.
-/

namespace RollupInput.Declaration

open Abi

/-- The sizes of the array suffixes. -/
def Surroundings.sizes (a : Surroundings) : List Suffix := a.suffixes.map WrittenSuffix.size

/-- The name, which is empty if there is none. -/
def Surroundings.nameText (a : Surroundings) : String :=
  (a.name.map fun w => String.ofList w.word).getD ""

mutual

/-- The specifier of a written type, if the names in it are specifiers and its fields have no names
of their own. -/
def Written.specifier? : Written → Option TypeText
  | .elementary type around =>
    match TypeText.parse? type with
    | some (.named identifier []) => some (.named identifier around.sizes)
    | _ => none
  | .emptyTuple _ _ around => some (.tuple [] around.sizes)
  | .tuple _ fields around => (specifiers? fields).map fun ts => .tuple ts around.sizes

/-- The specifiers of some fields without names. -/
def specifiers? : List Written → Option (List TypeText)
  | [] => some []
  | w :: rest =>
    if w.around.name.isSome then none
    else w.specifier?.bind fun t => (specifiers? rest).map (t :: ·)

end

/-- The type that a text names if it is an elementary one. -/
def elementary? (name : List Char) : Option AbiType := (elementary name).toOption

/-- The suffix sizes are put on the base of a written parameter. -/
theorem Surroundings.type_param (a : Surroundings) (base : AbiType) (components : List Param) :
    (a.param base components).type = a.sizes.foldl AbiType.suffixed base := rfl

/-- A written parameter has the name that is written. -/
theorem Written.name_of_param? {typeOf : List Char → Option AbiType} {w : Written} {p : Param}
    (h : w.param? typeOf = some p) : p.name = w.around.name.map fun x => String.ofList x.word := by
  cases w with
  | elementary type around =>
    rw [Written.param?] at h
    obtain ⟨t, -, rfl⟩ := Option.map_eq_some_iff.mp h
    rfl
  | emptyTuple marked gap around =>
    rw [Written.param?] at h
    cases h
    rfl
  | tuple marked fields around =>
    rw [Written.param?] at h
    obtain ⟨components, -, rfl⟩ := Option.map_eq_some_iff.mp h
    rfl

/-- A written name that is a specifier has that specifier, with the suffixes. -/
theorem specifier?_of_parse? {type identifier : List Char} {around : Surroundings}
    (h : TypeText.parse? type = some (.named identifier [])) :
    (Written.elementary type around).specifier? = some (.named identifier around.sizes) := by
  rw [Written.specifier?, h]

/-- The specifier of a name with suffixes is that of the name, with the suffixes. -/
theorem exists_of_specifier? {type : List Char} {around : Surroundings} {t : TypeText}
    (h : (Written.elementary type around).specifier? = some t) :
    ∃ identifier, TypeText.parse? type = some (.named identifier []) ∧
      t = .named identifier around.sizes := by
  rw [Written.specifier?] at h
  split at h
  · next identifier hparse =>
    cases h
    exact ⟨identifier, hparse, rfl⟩
  · cases h

mutual

/-- The specifier of a written type names the type that is written, or both fail, and the written
fields give no names. -/
theorem Written.ofText_specifier? (w : Written) {t : TypeText} (h : w.specifier? = some t) :
    (AbiType.ofText t).toOption = (w.param? elementary?).map Param.type ∧
      ∀ q, w.param? elementary? = some q → LabelAlike q.type [] q.components := by
  cases w with
  | elementary type around =>
    obtain ⟨identifier, hparse, rfl⟩ := exists_of_specifier? h
    have hname : elementary? type = (AbiType.ofName identifier).toOption :=
      toOption_elementary hparse
    rw [AbiType.ofText, Written.param?, toOption_map, hname, Option.map_map]
    refine ⟨rfl, fun q hq => ?_⟩
    obtain ⟨u, -, rfl⟩ := Option.map_eq_some_iff.mp hq
    intro v _
    rfl
  | emptyTuple marked gap around =>
    rw [Written.specifier?] at h
    cases h
    rw [AbiType.ofText, Written.param?]
    refine ⟨rfl, fun q hq => ?_⟩
    cases hq
    intro v _
    rfl
  | tuple marked fields around =>
    rw [Written.specifier?] at h
    obtain ⟨ts, hts, rfl⟩ := Option.map_eq_some_iff.mp h
    obtain ⟨htypes, hnameless⟩ := ofTexts_specifiers? fields hts
    rw [AbiType.ofText, Written.param?, toOption_map, htypes, Option.map_map, Option.map_map]
    refine ⟨rfl, fun q hq => ?_⟩
    obtain ⟨components, hcomponents, rfl⟩ := Option.map_eq_some_iff.mp hq
    exact (labelAlike_of_nameless (hnameless components hcomponents)).suffixes around.sizes

/-- The same for fields, none of which has a name. -/
theorem ofTexts_specifiers? (ws : List Written) {ts : List TypeText} (h : specifiers? ws = some ts) :
    (AbiType.ofTexts ts).toOption = (params? elementary? ws).map (List.map Param.type) ∧
      ∀ qs, params? elementary? ws = some qs → ∀ q ∈ qs, q.IsNameless := by
  cases ws with
  | nil =>
    rw [specifiers?] at h
    cases h
    rw [params?]
    refine ⟨rfl, fun qs hqs => ?_⟩
    cases hqs
    intro q hq
    cases hq
  | cons w rest =>
    rw [specifiers?] at h
    split at h
    · cases h
    · next hunnamed =>
      obtain ⟨t, ht, h⟩ := Option.bind_eq_some_iff.mp h
      obtain ⟨more, hmore, rfl⟩ := Option.map_eq_some_iff.mp h
      obtain ⟨htype, halike⟩ := Written.ofText_specifier? w ht
      obtain ⟨htypes, hnameless⟩ := ofTexts_specifiers? rest hmore
      have hnone : w.around.name = none := by
        rwa [Option.not_isSome_iff_eq_none] at hunnamed
      rw [AbiType.ofTexts, params?]
      refine ⟨?_, fun qs hqs => ?_⟩
      · cases hfirst : AbiType.ofText t with
        | error e =>
          rw [hfirst] at htype
          rw [Option.map_eq_none_iff.mp htype.symm]
          rfl
        | ok u =>
          rw [hfirst] at htype
          obtain ⟨q, hq, rfl⟩ := Option.map_eq_some_iff.mp htype.symm
          dsimp only
          rw [toOption_map, htypes, hq, Option.bind_some, Option.map_map, Option.map_map]
          rfl
      · obtain ⟨q, hq, hqs⟩ := Option.bind_eq_some_iff.mp hqs
        obtain ⟨others, hothers, rfl⟩ := Option.map_eq_some_iff.mp hqs
        have hname : q.name = none := by
          rw [Written.name_of_param? hq, hnone]
          rfl
        have hblank : q.nonBlankName? = none := by
          rw [Param.nonBlankName?, hname]
          rfl
        exact List.forall_mem_cons.mpr ⟨⟨hblank, halike q hq⟩, hnameless others hothers⟩

end

mutual

/-- The names of types in a written type that has a specifier are specifiers. -/
theorem Written.exists_of_mem_typeNames (w : Written) {t : TypeText} (h : w.specifier? = some t) :
    ∀ n ∈ w.typeNames, ∃ identifier, TypeText.parse? n = some (.named identifier []) := by
  cases w with
  | elementary type around =>
    obtain ⟨identifier, hparse, -⟩ := exists_of_specifier? h
    exact List.forall_mem_singleton.mpr ⟨identifier, hparse⟩
  | emptyTuple marked gap around =>
    intro n hn
    cases hn
  | tuple marked fields around =>
    rw [Written.specifier?] at h
    obtain ⟨ts, hts, -⟩ := Option.map_eq_some_iff.mp h
    exact exists_of_mem_typeNamesOf fields hts

/-- The names of types in fields that have specifiers are specifiers. -/
theorem exists_of_mem_typeNamesOf (ws : List Written) {ts : List TypeText}
    (h : specifiers? ws = some ts) :
    ∀ n ∈ typeNamesOf ws, ∃ identifier, TypeText.parse? n = some (.named identifier []) := by
  cases ws with
  | nil =>
    intro n hn
    cases hn
  | cons w rest =>
    rw [specifiers?] at h
    split at h
    · cases h
    · obtain ⟨t, ht, h⟩ := Option.bind_eq_some_iff.mp h
      obtain ⟨more, hmore, -⟩ := Option.map_eq_some_iff.mp h
      intro n hn
      rcases List.mem_append.mp hn with hn | hn
      · exact Written.exists_of_mem_typeNames w ht n hn
      · exact exists_of_mem_typeNamesOf rest hmore n hn

end

end RollupInput.Declaration

namespace RollupInput.Contract

open Abi Declaration

mutual

/-- Whether a written parameter writes a parameter of an interface: under its name, and with its
components as fields or else with its type as specifier. -/
def Declares (w : Written) : Argument → Prop
  | ⟨name, type, _, components⟩ =>
    w.around.nameText = name ∧ ∃ t, TypeText.parse? type.toList = some t ∧
      match components, w with
      | [], w => w.specifier? = some t
      | c :: rest, .tuple _ fields around =>
        DeclareAll fields (c :: rest) ∧ around.sizes = t.suffixes
      | _ :: _, _ => False

/-- Whether written parameters write the parameters of an interface one for one. -/
def DeclareAll (ws : List Written) : List Argument → Prop
  | [] => ws = []
  | a :: rest => ∃ w more, ws = w :: more ∧ Declares w a ∧ DeclareAll more rest

end

/-- Whether two readings come to the same: both have values, which are related, or one blames a
declaration and the other has nothing. -/
def ReadAlike {α β : Type} (related : α → β → Prop) : Except DecodeFault α → Option β → Prop
  | .ok a, some b => related a b
  | .error e, none => ∃ declaration reason, e = .malformedDeclaration declaration reason
  | _, _ => False

/-- A parameter whose type is no specifier is not resolved. -/
theorem resolve_of_malformed {name type : String} {internalType : Option String}
    {components : List Argument} (h : TypeText.parse? type.toList = none) :
    Argument.resolve ⟨name, type, internalType, components⟩ = .error .malformed := by
  rw [Argument.resolve, h]

/-- A parameter without components is resolved to the type that its specifier names. -/
theorem resolve_of_specifier {name type : String} {internalType : Option String} {t : TypeText}
    (h : TypeText.parse? type.toList = some t) :
    Argument.resolve ⟨name, type, internalType, []⟩ = AbiType.ofText t := by
  rw [Argument.resolve, h]
  rfl

/-- A parameter has the type that it is resolved to. -/
theorem resolve_of_param {a : Argument} {p : Param} (h : a.param = .ok p) :
    a.resolve = .ok p.type := by
  obtain ⟨name, type, internalType, components⟩ := a
  rw [Argument.param] at h
  split at h
  · cases h
  · next t ht =>
    obtain ⟨fields, -, rfl⟩ := ok_of_map h
    exact ht

/-- A parameter keeps its name. -/
theorem name_of_param {a : Argument} {p : Param} (h : a.param = .ok p) : p.name = some a.name := by
  obtain ⟨name, type, internalType, components⟩ := a
  rw [Argument.param] at h
  split at h
  · cases h
  · obtain ⟨fields, -, rfl⟩ := ok_of_map h
    rfl

/-- A parameter keeps its type as it is written. -/
theorem kind_of_param {a : Argument} {p : Param} (h : a.param = .ok p) : p.kind = a.type := by
  obtain ⟨name, type, internalType, components⟩ := a
  rw [Argument.param] at h
  split at h
  · cases h
  · obtain ⟨fields, -, rfl⟩ := ok_of_map h
    rfl

/-- Parameters have the types that they are resolved to. -/
theorem resolveAll_of_params {as : List Argument} {ps : List Param} (h : params as = .ok ps) :
    resolveAll as = .ok (ps.map Param.type) := by
  induction as generalizing ps with
  | nil =>
    rw [params] at h
    cases h
    rw [resolveAll]
    rfl
  | cons a rest ih =>
    rw [params] at h
    cases ha : a.param with
    | error e =>
      rw [ha] at h
      cases h
    | ok p =>
      rw [ha] at h
      obtain ⟨more, hmore, rfl⟩ := ok_of_map h
      rw [resolveAll, resolve_of_param ha, ih hmore]
      rfl

/-- A parameter that is written under its name has that name. -/
theorem nonBlankName?_of_nameText {w : Written} {p q : Param} {name : String}
    (hwritten : w.around.nameText = name) (hp : p.name = some name)
    (hq : w.param? elementary? = some q) : p.nonBlankName? = q.nonBlankName? := by
  have hname := Written.name_of_param? hq
  unfold Param.nonBlankName?
  rw [hp, hname, ← hwritten]
  unfold Surroundings.nameText
  cases w.around.name with
  | none => rfl
  | some x => rfl

/-- A parameter without components agrees with one that writes its specifier under its name, or
neither resolves. -/
theorem readAlike_of_specifier {w : Written} {name type : String} {internalType : Option String}
    {t : TypeText} (hname : w.around.nameText = name) (hparse : TypeText.parse? type.toList = some t)
    (h : w.specifier? = some t) :
    ReadAlike Param.Agrees (Argument.param ⟨name, type, internalType, []⟩)
      (w.param? elementary?) := by
  obtain ⟨htype, halike⟩ := Written.ofText_specifier? w h
  rw [Argument.param, resolve_of_specifier hparse]
  cases hq : w.param? elementary? with
  | none =>
    rw [hq] at htype
    cases ht : AbiType.ofText t with
    | ok u =>
      rw [ht] at htype
      cases htype
    | error e => exact ⟨_, _, rfl⟩
  | some q =>
    rw [hq] at htype
    have ht : AbiType.ofText t = .ok q.type := eq_ok_of_toOption htype
    rw [ht, params]
    exact ⟨rfl, nonBlankName?_of_nameText hname rfl hq, halike q hq⟩

/-- A parameter with components agrees with a tuple of fields that agree with them, if name and
suffixes are the same, or neither resolves. -/
theorem readAlike_of_fields {marked : Bool} {fields : List Written} {around : Surroundings}
    {name type : String} {internalType : Option String} {c : Argument} {rest : List Argument}
    {t : TypeText} (hname : around.nameText = name)
    (hparse : TypeText.parse? type.toList = some t) (hsizes : around.sizes = t.suffixes)
    (h : ReadAlike (List.Forall₂ Param.Agrees) (params (c :: rest)) (params? elementary? fields)) :
    ReadAlike Param.Agrees (Argument.param ⟨name, type, internalType, c :: rest⟩)
      ((Written.tuple marked fields around).param? elementary?) := by
  rw [Argument.param, Argument.resolve, hparse, Written.param?]
  cases hps : params (c :: rest) with
  | error e =>
    cases hqs : params? elementary? fields with
    | some qs =>
      rw [hps, hqs] at h
      exact False.elim h
    | none =>
      rw [hps, hqs] at h
      cases resolveAll (c :: rest) with
      | error fault => exact ⟨_, _, rfl⟩
      | ok types => exact h
  | ok ps =>
    cases hqs : params? elementary? fields with
    | none =>
      rw [hps, hqs] at h
      exact False.elim h
    | some qs =>
      rw [hps, hqs] at h
      have hagree : List.Forall₂ Param.Agrees ps qs := h
      have hparam : (Written.tuple marked fields around).param? elementary? =
          some (around.param (.tuple (qs.map Param.type)) qs) := by
        rw [Written.param?, hqs]
        rfl
      have hwritten : (Written.tuple marked fields around).around.nameText = name := hname
      rw [resolveAll_of_params hps]
      refine ⟨?_, nonBlankName?_of_nameText hwritten rfl hparam,
        (labelAlike_of_agree hagree).suffixes around.sizes⟩
      rw [Surroundings.type_param, hsizes, ← map_type_of_agree hagree]

/-- Parameters agree one after the other, or the first or the others do not resolve. -/
theorem readAlike_cons {w : Written} {more : List Written} {a : Argument} {rest : List Argument}
    (hfirst : ReadAlike Param.Agrees a.param (w.param? elementary?))
    (hrest : ReadAlike (List.Forall₂ Param.Agrees) (params rest) (params? elementary? more)) :
    ReadAlike (List.Forall₂ Param.Agrees) (params (a :: rest))
      (params? elementary? (w :: more)) := by
  rw [params, params?]
  cases hp : a.param with
  | error e =>
    cases hq : w.param? elementary? with
    | some q =>
      rw [hp, hq] at hfirst
      exact False.elim hfirst
    | none =>
      rw [hp, hq] at hfirst
      exact hfirst
  | ok p =>
    cases hq : w.param? elementary? with
    | none =>
      rw [hp, hq] at hfirst
      exact False.elim hfirst
    | some q =>
      rw [hp, hq] at hfirst
      cases hps : params rest with
      | error e =>
        cases hqs : params? elementary? more with
        | some qs =>
          rw [hps, hqs] at hrest
          exact False.elim hrest
        | none =>
          rw [hps, hqs] at hrest
          exact hrest
      | ok ps =>
        cases hqs : params? elementary? more with
        | none =>
          rw [hps, hqs] at hrest
          exact False.elim hrest
        | some qs =>
          rw [hps, hqs] at hrest
          exact .cons hfirst hrest

mutual

/-- A parameter of an interface and the parameter that writes it agree, or neither resolves. -/
theorem readAlike_of_declares : (w : Written) → (a : Argument) → Declares w a →
    ReadAlike Param.Agrees a.param (w.param? elementary?)
  | _, ⟨_, _, _, []⟩, ⟨hname, _, hparse, h⟩ => readAlike_of_specifier hname hparse h
  | .tuple _ fields _, ⟨_, _, _, c :: rest⟩, ⟨hname, _, hparse, hfields, hsizes⟩ =>
    readAlike_of_fields hname hparse hsizes (readAlike_of_declareAll fields (c :: rest) hfields)

/-- Parameters of an interface and the parameters that write them agree, or they do not resolve. -/
theorem readAlike_of_declareAll : (ws : List Written) → (as : List Argument) → DeclareAll ws as →
    ReadAlike (List.Forall₂ Param.Agrees) (params as) (params? elementary? ws)
  | _, [], rfl => .nil
  | _, a :: rest, ⟨w, more, rfl, hw, hmore⟩ =>
    readAlike_cons (readAlike_of_declares w a hw) (readAlike_of_declareAll more rest hmore)

end

mutual

/-- The names of types in what writes a parameter are specifiers. -/
theorem exists_of_declares : (w : Written) → (a : Argument) → Declares w a →
    ∀ n ∈ w.typeNames, ∃ identifier, TypeText.parse? n = some (.named identifier [])
  | _, ⟨_, _, _, []⟩, ⟨_, _, _, h⟩ => Written.exists_of_mem_typeNames _ h
  | .tuple _ fields _, ⟨_, _, _, c :: rest⟩, ⟨_, _, _, hfields, _⟩ =>
    exists_of_declareAll fields (c :: rest) hfields

/-- The names of types in what writes some parameters are specifiers. -/
theorem exists_of_declareAll : (ws : List Written) → (as : List Argument) → DeclareAll ws as →
    ∀ n ∈ typeNamesOf ws, ∃ identifier, TypeText.parse? n = some (.named identifier [])
  | _, [], rfl => fun _ hn => nomatch hn
  | _, a :: rest, ⟨w, more, rfl, hw, hmore⟩ => fun n hn =>
    (List.mem_append.mp hn).elim (exists_of_declares w a hw n)
      (exists_of_declareAll more rest hmore n)

end

/-- A parameter is written under its name. -/
theorem nameText_of_declares {w : Written} {a : Argument} (h : Declares w a) :
    w.around.nameText = a.name := by
  obtain ⟨name, type, internalType, components⟩ := a
  rw [Declares] at h
  exact h.1

/-- A name that is written is that of a word. -/
theorem exists_of_nameText {around : Surroundings} (h : around.nameText ≠ "") :
    ∃ x, around.name = some x ∧ around.nameText = String.ofList x.word := by
  unfold Surroundings.nameText at h ⊢
  cases hname : around.name with
  | none =>
    rw [hname] at h
    exact absurd rfl h
  | some x => exact ⟨x, rfl, rfl⟩

/-- The names of parameters that are written have no blanks around them, and are no modifiers. -/
theorem name_of_declareAll {ws : List Written} {as : List Argument} (h : DeclareAll ws as)
    (hlaid : AreLaidOut ws) :
    ∀ a ∈ as, a.name ≠ "" →
      Text.nonBlank? a.name = some a.name ∧ a.name.toList ∉ Declaration.modifiers := by
  induction as generalizing ws with
  | nil =>
    intro a ha
    cases ha
  | cons first rest ih =>
    obtain ⟨w, more, rfl, hfirst, hmore⟩ := h
    rw [AreLaidOut] at hlaid
    refine List.forall_mem_cons.mpr ⟨?_, ih hmore hlaid.2⟩
    intro hne
    rw [← nameText_of_declares hfirst] at hne ⊢
    obtain ⟨x, hx, htext⟩ := exists_of_nameText hne
    obtain ⟨hidentifier, hnot, -⟩ := (Written.isLaidOut_around hlaid.1).name x hx
    have hword : Text.IsWord (String.ofList x.word).toList := by
      rw [String.toList_ofList]
      exact Text.isWord_of_isIdentifier hidentifier
    rw [htext]
    refine ⟨Text.nonBlank?_of_isWord hword, ?_⟩
    rw [String.toList_ofList]
    exact hnot

end RollupInput.Contract
