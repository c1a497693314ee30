import RollupInput.Contract.Json
import RollupInput.Proofs.Contract.Order
import RollupInput.Proofs.Json.Reading
import RollupInput.Proofs.Json.Records

/-!
# Written interfaces

An interface that was read is read back from what it is written as. What a reader asks of names and
types is asked of the data that it gives, so the data can be written and read again: parameters by
induction on their fields, items by their kinds, and an interface because its items are in order.
-/

namespace RollupInput.Contract

open Json

/-- Whether a text can be the name of an item or a parameter. -/
def IsName (name : String) : Prop :=
  (name.isEmpty || Text.isIdentifier name.toList) = true

/-- Names are read back. -/
theorem isReadBack_name {name : String} (h : IsName name) : IsReadBack asName .str name := by
  have hread : asName (.str name) =
      if name.isEmpty || Text.isIdentifier name.toList then .ok name
      else .error (.expected "an identifier") := rfl
  unfold IsReadBack
  rw [sorted, hread]
  · exact if_pos h
  · simp
  · simp

/-- What is read as a name is one. -/
theorem isName_of_asName {v : Json} {name : String} (h : asName v = .ok name) : IsName name := by
  obtain ⟨s, -, h⟩ := ok_of_bind h
  split at h
  · next hname =>
    cases h
    exact hname
  · cases h

mutual

/-- Whether a parameter can be read: its name is one, its type goes with its having fields or not,
and its fields can be read. -/
def Argument.IsReadable : Argument → Prop
  | ⟨name, type, _, components⟩ =>
    IsName name ∧ admitsType type (!components.isEmpty) = true ∧ AreReadable components

/-- Whether some parameters can be read. -/
def AreReadable : List Argument → Prop
  | [] => True
  | a :: rest => a.IsReadable ∧ AreReadable rest

end

/-- Some parameters can be read if each can. -/
theorem areReadable_iff (as : List Argument) : AreReadable as ↔ ∀ a ∈ as, a.IsReadable := by
  induction as with
  | nil => simp [AreReadable]
  | cons a rest ih => rw [AreReadable, ih, List.forall_mem_cons]

/-- The written forms of some parameters. -/
theorem argumentsJson_eq_map (as : List Argument) : argumentsJson as = as.map (argumentJson none) := by
  induction as with
  | nil => rfl
  | cons a rest ih => rw [argumentsJson, ih, List.map_cons]

/-- What is read as a parameter can be read. -/
theorem isReadable_of_readArgument {levels : Nat} {v : Json} {a : Argument} {indexed : Option Bool}
    (h : readArgument levels v = .ok (a, indexed)) : a.IsReadable := by
  induction levels generalizing v a indexed with
  | zero => cases h
  | succ levels ih =>
    rw [readArgument] at h
    obtain ⟨members, -, h⟩ := ok_of_bind h
    obtain ⟨name, hname, h⟩ := ok_of_bind h
    obtain ⟨type, -, h⟩ := ok_of_bind h
    obtain ⟨isIndexed, -, h⟩ := ok_of_bind h
    obtain ⟨internalType, -, h⟩ := ok_of_bind h
    obtain ⟨components, hcomponents, h⟩ := ok_of_bind h
    split at h
    · next htype =>
      cases h
      refine ⟨?_, htype, (areReadable_iff components).mpr ?_⟩
      · rcases eq_or_exists_of_defaulted hname with rfl | ⟨w, hw⟩
        · rfl
        · exact isName_of_asName hw
      · intro c hc
        rcases eq_or_exists_of_defaulted hcomponents with rfl | ⟨w, hw⟩
        · cases hc
        · obtain ⟨u, hu⟩ := exists_of_asList hw c hc
          obtain ⟨⟨b, other⟩, hb, hu⟩ := ok_of_bind hu
          dsimp only at hu
          split at hu
          · cases hu
          · cases hu
            exact ih hb
    · cases h

mutual

/-- A parameter that can be read is read back, with its mark of being indexed. -/
theorem readArgument_json (a : Argument) (ha : a.IsReadable) (indexed : Option Bool) (levels : Nat)
    (hlevels : (argumentJson indexed a).sorted.height < levels) :
    readArgument levels (argumentJson indexed a).sorted = .ok (a, indexed) := by
  obtain ⟨name, type, internalType, components⟩ := a
  obtain ⟨hname, htype, hreadable⟩ := ha
  obtain ⟨members, hjson, hnodup, hnameMember, htypeMember, hindexed, hinternal, hcomponents⟩ :
      ∃ members, argumentJson indexed ⟨name, type, internalType, components⟩ = object members ∧
        (members.map (·.1)).Nodup ∧ members.lookup "name" = some (some (.str name)) ∧
        members.lookup "type" = some (some (.str type)) ∧
        members.lookup "indexed" = some (indexed.map .bool) ∧
        members.lookup "internalType" = some (internalType.map .str) ∧
        members.lookup "components" = some (if components.isEmpty then none
          else some (.arr (argumentsJson components))) := by
    rw [argumentJson]
    exact ⟨_, rfl, by simp, rfl, rfl, rfl, rfl, rfl⟩
  rw [hjson] at hlevels ⊢
  obtain ⟨levels, rfl⟩ : ∃ k, levels = k + 1 := ⟨levels - 1, by omega⟩
  have hlow : ∀ b ∈ components, (argumentJson none b).sorted.height < levels := by
    intro b hb
    have hlookup := lookup_present_sorted hnodup "components"
    rw [hcomponents, if_neg (by simpa using List.ne_nil_of_mem hb), Option.join_some,
      Option.map_some, argumentsJson_eq_map, sorted_arr] at hlookup
    have hobject := height_lt_of_lookup hlookup
    have harray := height_lt_of_mem (List.mem_map_of_mem (f := sorted)
      (List.mem_map_of_mem (f := argumentJson none) hb))
    rw [sorted_object] at hlevels
    omega
  have hparts : ∀ (component : Json → Shaped Argument),
      (∀ w b, readArgument levels w = .ok (b, none) → component w = .ok b) →
      defaulted "components" [] (asList component) (present members) = .ok components := by
    intro component hcomponent
    cases components with
    | nil =>
      refine defaulted_absent [] hnodup ?_
      rw [hcomponents]
      rfl
    | cons c rest =>
      have hlist : IsReadBack (asList component)
          (fun as => .arr (as.map (argumentJson none))) (c :: rest) :=
        isReadBack_list fun b hb => hcomponent _ b
          (readArguments_json (c :: rest) hreadable levels b hb (hlow b hb))
      rw [if_neg (by simp), argumentsJson_eq_map] at hcomponents
      exact defaulted_present hlist [] hnodup hcomponents
  rw [readArgument]
  refine (bind_of_ok (fields_sorted_object argumentFields members) _).trans ?_
  refine (bind_of_ok (defaulted_present (isReadBack_name hname) "" hnodup hnameMember) _).trans ?_
  refine (bind_of_ok (required_present (isReadBack_string type) hnodup htypeMember) _).trans ?_
  refine (bind_of_ok (optional_present hnodup hindexed (by rintro b ⟨⟩)
    fun b _ => isReadBack_bool b) _).trans ?_
  refine (bind_of_ok (optional_present hnodup hinternal (by rintro s ⟨⟩)
    fun s _ => isReadBack_string s) _).trans ?_
  refine (bind_of_ok (hparts _ ?_) _).trans (if_pos htype)
  intro w b hread
  exact (bind_of_ok hread _).trans rfl

/-- Parameters that can be read are read back. -/
theorem readArguments_json (as : List Argument) (has : AreReadable as) (levels : Nat) (a : Argument)
    (ha : a ∈ as) (hlevels : (argumentJson none a).sorted.height < levels) :
    readArgument levels (argumentJson none a).sorted = .ok (a, none) := by
  cases as with
  | nil => cases ha
  | cons b rest =>
    by_cases hb : a ∈ rest
    · exact readArguments_json rest has.2 levels a hb hlevels
    · obtain rfl : a = b := (List.mem_cons.mp ha).resolve_right hb
      exact readArgument_json a has.1 none levels hlevels

end

/-- Parameters of anything but events are read back. -/
theorem isReadBack_argument {a : Argument} (h : a.IsReadable) :
    IsReadBack Argument.ofJson (argumentJson none) a := by
  have hread := readArgument_json a h none ((argumentJson none a).sorted.height + 1)
    (Nat.lt_succ_self _)
  exact (bind_of_ok hread _).trans rfl

/-- Lists of parameters are read back. -/
theorem isReadBack_arguments {as : List Argument} (h : AreReadable as) :
    IsReadBack (asList Argument.ofJson) (fun as => .arr (argumentsJson as)) as := by
  have hlist : IsReadBack (asList Argument.ofJson)
      (fun as => .arr (as.map (argumentJson none))) as :=
    isReadBack_list fun a ha => isReadBack_argument ((areReadable_iff as).mp h a ha)
  unfold IsReadBack at hlist ⊢
  dsimp only at hlist ⊢
  rwa [argumentsJson_eq_map]

/-- Parameters of events are read back. -/
theorem isReadBack_eventArgument {a : EventArgument} (h : a.argument.IsReadable) :
    IsReadBack EventArgument.ofJson (fun a => argumentJson (some a.indexed) a.argument) a := by
  have hread := readArgument_json a.argument h (some a.indexed)
    ((argumentJson (some a.indexed) a.argument).sorted.height + 1) (Nat.lt_succ_self _)
  unfold IsReadBack EventArgument.ofJson
  dsimp only
  rw [hread]
  rfl

/-- What is read as a parameter of anything but an event can be read. -/
theorem isReadable_of_ofJson {v : Json} {a : Argument} (h : Argument.ofJson v = .ok a) :
    a.IsReadable := by
  obtain ⟨⟨b, indexed⟩, hread, h⟩ := ok_of_bind h
  dsimp only at h
  split at h
  · cases h
  · cases h
    exact isReadable_of_readArgument hread

/-- What is read as a list of parameters can be read. -/
theorem areReadable_of_asList {v : Json} {as : List Argument}
    (h : asList Argument.ofJson v = .ok as) : AreReadable as := by
  refine (areReadable_iff as).mpr fun a ha => ?_
  obtain ⟨w, hw⟩ := exists_of_asList h a ha
  exact isReadable_of_ofJson hw

/-- Whether a mutability is written among members, and under its newest name only. -/
structure HasMutability (members : List (String × Option Json)) (m : Mutability) : Prop where
  /-- It is written under its newest name. -/
  written : members.lookup "stateMutability" = some (some (.str m.text))
  /-- The older mark of payments is left out. -/
  payable : (members.lookup "payable").join = none
  /-- The older mark of reading is left out. -/
  constant : (members.lookup "constant").join = none

/-- A written mutability is read back. -/
theorem ofMembers_present {members : List (String × Option Json)}
    (hnodup : (members.map (·.1)).Nodup) {m : Mutability} (h : HasMutability members m) :
    Mutability.ofMembers (present members) = .ok m := by
  have hchoice : ∀ b ∈ some m,
      IsReadBack (asChoice isHollow Mutability.choices) (fun m => .str m.text) b :=
    fun b _ => isReadBack_choice isHollow (by cases b <;> rfl)
  have hmember : members.lookup "stateMutability" =
      some ((some m).map fun m : Mutability => .str m.text) := h.written
  unfold Mutability.ofMembers
  refine (bind_of_ok (optional_present hnodup hmember (by rintro b ⟨⟩) hchoice) _).trans ?_
  refine (bind_of_ok (optional_absent hnodup h.payable) _).trans ?_
  exact (bind_of_ok (optional_absent hnodup h.constant) _).trans rfl

/-- Whether an item can be read. -/
def Item.IsReadable : Item → Prop
  | .constructor c => AreReadable c.inputs
  | .fallback _ | .receive _ => True
  | .function f => IsName f.name ∧ AreReadable f.inputs ∧ AreReadable f.outputs
  | .event e => IsName e.name ∧ ∀ a ∈ e.inputs, a.argument.IsReadable
  | .error e => IsName e.name ∧ AreReadable e.inputs

/-- What is read as an item can be read. -/
theorem Item.isReadable_of_ofJson {readKind : Json → Shaped Kind} {v : Json} {item : Item}
    (h : Item.ofJson readKind v = .ok item) : item.IsReadable := by
  obtain ⟨⟨kind, members⟩, -, h⟩ := ok_of_bind h
  cases kind with
  | constructor =>
    obtain ⟨inputs, hinputs, h⟩ := ok_of_bind h
    obtain ⟨m, -, h⟩ := ok_of_bind h
    cases h
    obtain ⟨w, hw⟩ := exists_of_required hinputs
    exact areReadable_of_asList hw
  | fallback =>
    obtain ⟨m, -, h⟩ := ok_of_bind h
    cases h
    trivial
  | receive =>
    obtain ⟨m, -, h⟩ := ok_of_bind h
    cases h
    trivial
  | function =>
    obtain ⟨name, hname, h⟩ := ok_of_bind h
    obtain ⟨inputs, hinputs, h⟩ := ok_of_bind h
    obtain ⟨outputs, houtputs, h⟩ := ok_of_bind h
    obtain ⟨m, -, h⟩ := ok_of_bind h
    cases h
    obtain ⟨u, hu⟩ := exists_of_required hname
    obtain ⟨w, hw⟩ := exists_of_required hinputs
    obtain ⟨x, hx⟩ := exists_of_required houtputs
    exact ⟨isName_of_asName hu, areReadable_of_asList hw, areReadable_of_asList hx⟩
  | event =>
    obtain ⟨name, hname, h⟩ := ok_of_bind h
    obtain ⟨inputs, hinputs, h⟩ := ok_of_bind h
    obtain ⟨anonymous, -, h⟩ := ok_of_bind h
    cases h
    obtain ⟨u, hu⟩ := exists_of_required hname
    obtain ⟨w, hw⟩ := exists_of_required hinputs
    refine ⟨isName_of_asName hu, fun a ha => ?_⟩
    obtain ⟨x, hx⟩ := exists_of_asList hw a ha
    obtain ⟨p, hp, rfl⟩ := ok_of_map hx
    exact isReadable_of_readArgument hp
  | error =>
    obtain ⟨name, hname, h⟩ := ok_of_bind h
    obtain ⟨inputs, hinputs, h⟩ := ok_of_bind h
    cases h
    obtain ⟨u, hu⟩ := exists_of_required hname
    obtain ⟨w, hw⟩ := exists_of_required hinputs
    exact ⟨isName_of_asName hu, areReadable_of_asList hw⟩

/-- The kind of an item that is written as an object is found under `type`. -/
theorem split_present {members : List (String × Option Json)} (hnodup : (members.map (·.1)).Nodup)
    {name : String} {kind : Kind} (htype : members.lookup "type" = some (some (.str name)))
    (hkind : Kind.ofNameOrPosition (.str name) = .ok kind) :
    Item.split Kind.ofNameOrPosition (.obj (present members)) = .ok (kind, present members) := by
  have hrequired : required "type" Kind.ofNameOrPosition (present members) = .ok kind := by
    unfold required
    rw [lookup_present_sorted hnodup, htype]
    dsimp only [Option.join_some, Option.map_some, sorted]
    rw [hkind]
    rfl
  exact (bind_of_ok hrequired _).trans rfl

/-- Items that can be read are read back. -/
theorem isReadBack_item {item : Item} (h : item.IsReadable) :
    IsReadBack (Item.ofJson Kind.ofNameOrPosition) Item.json item := by
  unfold IsReadBack Item.ofJson
  cases item with
  | constructor c =>
    obtain ⟨members, hjson, hnodup, htype, hinputs, hmutability⟩ :
        ∃ members, (Item.constructor c).json = object members ∧ (members.map (·.1)).Nodup ∧
          members.lookup "type" = some (some (.str "constructor")) ∧
          members.lookup "inputs" = some (some (.arr (argumentsJson c.inputs))) ∧
          HasMutability members c.mutability :=
      ⟨_, obj_eq_object _, by simp, rfl, rfl, ⟨rfl, rfl, rfl⟩⟩
    rw [hjson, sorted_object]
    refine (bind_of_ok (split_present hnodup htype rfl) _).trans ?_
    refine (bind_of_ok (required_present (isReadBack_arguments h) hnodup hinputs) _).trans ?_
    exact (bind_of_ok (ofMembers_present hnodup hmutability) _).trans rfl
  | fallback m =>
    obtain ⟨members, hjson, hnodup, htype, hmutability⟩ :
        ∃ members, (Item.fallback m).json = object members ∧ (members.map (·.1)).Nodup ∧
          members.lookup "type" = some (some (.str "fallback")) ∧ HasMutability members m :=
      ⟨_, obj_eq_object _, by simp, rfl, ⟨rfl, rfl, rfl⟩⟩
    rw [hjson, sorted_object]
    refine (bind_of_ok (split_present hnodup htype rfl) _).trans ?_
    exact (bind_of_ok (ofMembers_present hnodup hmutability) _).trans rfl
  | receive m =>
    obtain ⟨members, hjson, hnodup, htype, hmutability⟩ :
        ∃ members, (Item.receive m).json = object members ∧ (members.map (·.1)).Nodup ∧
          members.lookup "type" = some (some (.str "receive")) ∧ HasMutability members m :=
      ⟨_, obj_eq_object _, by simp, rfl, ⟨rfl, rfl, rfl⟩⟩
    rw [hjson, sorted_object]
    refine (bind_of_ok (split_present hnodup htype rfl) _).trans ?_
    exact (bind_of_ok (ofMembers_present hnodup hmutability) _).trans rfl
  | function f =>
    obtain ⟨members, hjson, hnodup, htype, hname, hinputs, houtputs, hmutability⟩ :
        ∃ members, (Item.function f).json = object members ∧ (members.map (·.1)).Nodup ∧
          members.lookup "type" = some (some (.str "function")) ∧
          members.lookup "name" = some (some (.str f.name)) ∧
          members.lookup "inputs" = some (some (.arr (argumentsJson f.inputs))) ∧
          members.lookup "outputs" = some (some (.arr (argumentsJson f.outputs))) ∧
          HasMutability members f.mutability :=
      ⟨_, obj_eq_object _, by simp, rfl, rfl, rfl, rfl, ⟨rfl, rfl, rfl⟩⟩
    obtain ⟨hfine, hins, houts⟩ := h
    rw [hjson, sorted_object]
    refine (bind_of_ok (split_present hnodup htype rfl) _).trans ?_
    refine (bind_of_ok (required_present (isReadBack_name hfine) hnodup hname) _).trans ?_
    refine (bind_of_ok (required_present (isReadBack_arguments hins) hnodup hinputs) _).trans ?_
    refine (bind_of_ok (required_present (isReadBack_arguments houts) hnodup houtputs) _).trans ?_
    exact (bind_of_ok (ofMembers_present hnodup hmutability) _).trans rfl
  | event e =>
    obtain ⟨members, hjson, hnodup, htype, hname, hinputs, hanonymous⟩ :
        ∃ members, (Item.event e).json = object members ∧ (members.map (·.1)).Nodup ∧
          members.lookup "type" = some (some (.str "event")) ∧
          members.lookup "name" = some (some (.str e.name)) ∧
          members.lookup "inputs" = some (some (.arr
            (e.inputs.map fun a => argumentJson (some a.indexed) a.argument))) ∧
          members.lookup "anonymous" = some (some (.bool e.anonymous)) :=
      ⟨_, obj_eq_object _, by simp, rfl, rfl, rfl, rfl⟩
    have hlist := isReadBack_list fun a ha => isReadBack_eventArgument (h.2 a ha)
    rw [hjson, sorted_object]
    refine (bind_of_ok (split_present hnodup htype rfl) _).trans ?_
    refine (bind_of_ok (required_present (isReadBack_name h.1) hnodup hname) _).trans ?_
    refine (bind_of_ok (required_present hlist hnodup hinputs) _).trans ?_
    exact (bind_of_ok (required_present (isReadBack_bool _) hnodup hanonymous) _).trans rfl
  | error e =>
    obtain ⟨members, hjson, hnodup, htype, hname, hinputs⟩ :
        ∃ members, (Item.error e).json = object members ∧ (members.map (·.1)).Nodup ∧
          members.lookup "type" = some (some (.str "error")) ∧
          members.lookup "name" = some (some (.str e.name)) ∧
          members.lookup "inputs" = some (some (.arr (argumentsJson e.inputs))) :=
      ⟨_, obj_eq_object _, by simp, rfl, rfl, rfl⟩
    rw [hjson, sorted_object]
    refine (bind_of_ok (split_present hnodup htype rfl) _).trans ?_
    refine (bind_of_ok (required_present (isReadBack_name h.1) hnodup hname) _).trans ?_
    exact (bind_of_ok (required_present (isReadBack_arguments h.2) hnodup hinputs) _).trans rfl

/-- Whether an interface can be read: its items can, and stand in their order. -/
structure Interface.IsReadable (abi : Interface) : Prop where
  /-- The items can be read. -/
  items : ∀ item ∈ abi.items, item.IsReadable
  /-- Functions, events and errors stand in the order of their names. -/
  inOrder : abi.IsInOrder

/-- What is read as an interface can be read. -/
theorem Interface.isReadable_of_ofJson {readKind : Json → Shaped Kind} {v : Json} {abi : Interface}
    (h : Interface.ofJson readKind v = .ok abi) : abi.IsReadable := by
  obtain ⟨made, hmade, h⟩ := ok_of_bind h
  have hitems := exists_of_asList hmade
  cases hfold : Interface.ofItems? made with
  | none =>
    rw [hfold] at h
    cases h
  | some whole =>
    rw [hfold] at h
    cases h
    have hempty : Interface.empty.IsInOrder := ⟨.nil, .nil, .nil⟩
    refine ⟨?_, Interface.isInOrder_of_foldlM hempty hfold⟩
    intro item hitem
    obtain ⟨w, hw⟩ := hitems item ((Interface.perm_items_of_ofItems? hfold).mem_iff.mp hitem)
    exact Item.isReadable_of_ofJson hw

/-- Interfaces that can be read are read back. -/
theorem isReadBack_interface {abi : Interface} (h : abi.IsReadable) :
    IsReadBack (Interface.ofJson Kind.ofNameOrPosition) Interface.json abi := by
  have hlist : asList (Item.ofJson Kind.ofNameOrPosition) abi.json.sorted = .ok abi.items :=
    isReadBack_list fun item hitem => isReadBack_item (h.items item hitem)
  have hitems := Interface.ofItems?_items h.inOrder
  refine (bind_of_ok hlist _).trans ?_
  rw [hitems]
  rfl

mutual

/-- The written form of a parameter has no numbers. -/
theorem hasSmallNumbers_argumentJson (a : Argument) (indexed : Option Bool) :
    (argumentJson indexed a).HasSmallNumbers := by
  obtain ⟨name, type, internalType, components⟩ := a
  have hcomponents := hasSmallNumbers_argumentsJson components
  rw [argumentJson]
  refine hasSmallNumbers_object ?_
  intro m hm v hv
  simp only [List.mem_cons, List.not_mem_nil, or_false] at hm
  rcases hm with rfl | rfl | rfl | rfl | rfl
  · cases hv
    trivial
  · cases hv
    trivial
  · obtain ⟨b, -, rfl⟩ := Option.map_eq_some_iff.mp hv
    trivial
  · obtain ⟨s, -, rfl⟩ := Option.map_eq_some_iff.mp hv
    trivial
  · dsimp only at hv
    split at hv
    · cases hv
    · cases hv
      exact hasSmallNumbers_arr hcomponents

/-- The written forms of parameters have no numbers. -/
theorem hasSmallNumbers_argumentsJson (as : List Argument) :
    ∀ v ∈ argumentsJson as, v.HasSmallNumbers := by
  cases as with
  | nil =>
    intro v hv
    cases hv
  | cons a rest =>
    rw [argumentsJson]
    exact List.forall_mem_cons.mpr
      ⟨hasSmallNumbers_argumentJson a none, hasSmallNumbers_argumentsJson rest⟩

end

/-- The written form of an item has no numbers. -/
theorem Item.hasSmallNumbers_json (item : Item) : item.json.HasSmallNumbers := by
  have harguments (as : List Argument) : (Json.arr (argumentsJson as)).HasSmallNumbers :=
    hasSmallNumbers_arr (hasSmallNumbers_argumentsJson as)
  cases item with
  | constructor c => exact ⟨trivial, harguments c.inputs, trivial, trivial⟩
  | fallback m => exact ⟨trivial, trivial, trivial⟩
  | receive m => exact ⟨trivial, trivial, trivial⟩
  | function f => exact ⟨trivial, trivial, harguments f.inputs, harguments f.outputs, trivial, trivial⟩
  | event e =>
    have hinputs : (Json.arr (e.inputs.map fun a =>
        argumentJson (some a.indexed) a.argument)).HasSmallNumbers := by
      refine hasSmallNumbers_arr ?_
      intro v hv
      obtain ⟨a, -, rfl⟩ := List.mem_map.mp hv
      exact hasSmallNumbers_argumentJson a.argument (some a.indexed)
    exact ⟨trivial, trivial, hinputs, trivial, trivial⟩
  | error e => exact ⟨trivial, trivial, harguments e.inputs, trivial⟩

/-- The written form of an interface has no numbers. -/
theorem Interface.hasSmallNumbers_json (abi : Interface) : abi.json.HasSmallNumbers := by
  refine hasSmallNumbers_arr ?_
  intro v hv
  obtain ⟨item, -, rfl⟩ := List.mem_map.mp hv
  exact Item.hasSmallNumbers_json item

end RollupInput.Contract
