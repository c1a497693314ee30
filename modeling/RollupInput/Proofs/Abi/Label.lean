import RollupInput.Abi.Param
import RollupInput.Proofs.Abi.Encoding

/-!
# Names on tuples

Which values carry the names of their components as they should: a tuple is a struct with the
names in order exactly if there are as many components as fields and all of them have names, at
every depth. Labelling gives such a value, and taking the names off again gives what was labelled.
-/

namespace RollupInput.Abi

mutual

/-- The value with the names taken off its structs. -/
def Value.plain : Value → Value
  | .array items => .array (plainItems items)
  | .tuple items => .tuple (plainItems items)
  | .struct fields => .tuple (plainFields fields)
  | v => v

/-- The values of a list with the names taken off their structs. -/
def plainItems : List Value → List Value
  | [] => []
  | v :: rest => v.plain :: plainItems rest

/-- The values of named fields, with the names taken off their structs as well. -/
def plainFields : List (String × Value) → List Value
  | [] => []
  | (_, v) :: rest => v.plain :: plainFields rest

end

/-- The components of the first parameter of a list, if there is one. -/
def firstComponents (params : List Param) : List Param :=
  (params.head?.map Param.components).getD []

mutual

/-- Whether a value carries the names of its components: every struct has exactly their names, all
of which are there, and every tuple lacks one or has another number of fields. -/
def Labelled (components : List Param) : Value → Prop
  | .array items => LabelledAll components items
  | .tuple items =>
    ¬(components.length = items.length ∧ ∀ p ∈ components, p.nonBlankName?.isSome = true) ∧
      LabelledEach components items
  | .struct fields =>
    components.map Param.nonBlankName? = fields.map (fun f => some f.1) ∧
      LabelledFields components fields
  | _ => True

/-- Whether each value of a list carries the names of the same components. -/
def LabelledAll (components : List Param) : List Value → Prop
  | [] => True
  | v :: rest => Labelled components v ∧ LabelledAll components rest

/-- Whether each field carries the names of the components of its own parameter. -/
def LabelledEach (components : List Param) : List Value → Prop
  | [] => True
  | v :: rest =>
    Labelled (firstComponents components) v ∧ LabelledEach components.tail rest

/-- Whether each named field carries the names of the components of its own parameter. -/
def LabelledFields (components : List Param) : List (String × Value) → Prop
  | [] => True
  | (_, v) :: rest =>
    Labelled (firstComponents components) v ∧ LabelledFields components.tail rest

end

mutual

/-- A value of a type has no names. -/
theorem plain_of_hasType (t : AbiType) (v : Value) (h : HasType t v) : v.plain = v := by
  cases v with
  | array items =>
    cases t <;> first | exact False.elim h | skip
    · rename_i element
      rw [Value.plain, plainItems_of_forall element items h]
    · rename_i element size
      rw [Value.plain, plainItems_of_forall element items h.2]
  | tuple items =>
    cases t <;> first | exact False.elim h | skip
    rename_i fields
    rw [Value.plain, plainItems_of_haveTypes fields items h]
  | struct fields => cases t <;> exact False.elim h
  | _ => rfl

/-- Values of one type have no names. -/
theorem plainItems_of_forall (t : AbiType) (vs : List Value) (h : ∀ v ∈ vs, HasType t v) :
    plainItems vs = vs := by
  cases vs with
  | nil => rfl
  | cons v vs =>
    have hv := plain_of_hasType t v (h v List.mem_cons_self)
    have hvs := plainItems_of_forall t vs fun w hw => h w (List.mem_cons_of_mem v hw)
    rw [plainItems, hv, hvs]

/-- Values of the types of a list have no names. -/
theorem plainItems_of_haveTypes (ts : List AbiType) (vs : List Value) (h : HaveTypes ts vs) :
    plainItems vs = vs := by
  cases vs with
  | nil => rfl
  | cons v vs =>
    cases ts with
    | nil => exact False.elim h
    | cons t ts =>
      have hv := plain_of_hasType t v h.1
      have hvs := plainItems_of_haveTypes ts vs h.2
      rw [plainItems, hv, hvs]

end

mutual

/-- Taking the names off a labelled value takes them off the value. -/
theorem plain_label (components : List Param) (v : Value) :
    (label components v).plain = v.plain := by
  cases v with
  | array items => rw [label, Value.plain, plainItems_labelAll components items, Value.plain]
  | tuple items =>
    rw [label, Value.plain]
    split
    · rw [Value.plain, plainFields_labelNamed components items]
    · rw [Value.plain, plainItems_labelEach components items]
  | _ => rfl

/-- The same for the values of an array. -/
theorem plainItems_labelAll (components : List Param) (vs : List Value) :
    plainItems (labelAll components vs) = plainItems vs := by
  cases vs with
  | nil => rfl
  | cons v vs =>
    rw [labelAll, plainItems, plain_label components v, plainItems_labelAll components vs,
      plainItems]

/-- The same for fields without names. -/
theorem plainItems_labelEach (components : List Param) (vs : List Value) :
    plainItems (labelEach components vs) = plainItems vs := by
  cases vs with
  | nil => rfl
  | cons v vs =>
    rw [labelEach, plainItems, plain_label _ v, plainItems_labelEach components.tail vs, plainItems]

/-- The same for named fields. -/
theorem plainFields_labelNamed (components : List Param) (vs : List Value) :
    plainFields (labelNamed components vs) = plainItems vs := by
  cases vs with
  | nil => rfl
  | cons v vs =>
    rw [labelNamed, plainFields, plain_label _ v, plainFields_labelNamed components.tail vs,
      plainItems]

end

/-- The values of an array are labelled one by one. -/
theorem labelAll_eq_map (components : List Param) (vs : List Value) :
    labelAll components vs = vs.map (label components) := by
  induction vs with
  | nil => rfl
  | cons v vs ih => rw [labelAll, ih, List.map_cons]

/-- Named fields are the fields without names, with their names. -/
theorem map_snd_labelNamed (components : List Param) (vs : List Value) :
    (labelNamed components vs).map Prod.snd = labelEach components vs := by
  induction vs generalizing components with
  | nil => rfl
  | cons v vs ih => rw [labelNamed, List.map_cons, labelEach, ih]

/-- Labelling keeps the number of fields. -/
theorem length_labelEach (components : List Param) (vs : List Value) :
    (labelEach components vs).length = vs.length := by
  induction vs generalizing components with
  | nil => rfl
  | cons v vs ih => rw [labelEach, List.length_cons, List.length_cons, ih]

/-- Parameters that name all fields give the fields their names. -/
theorem names_labelNamed (components : List Param) (vs : List Value)
    (h : Param.nameAll components vs.length = true) :
    components.map Param.nonBlankName? = (labelNamed components vs).map fun f => some f.1 := by
  induction vs generalizing components with
  | nil =>
    cases components with
    | nil => rfl
    | cons p rest => simp [Param.nameAll] at h
  | cons v vs ih =>
    cases components with
    | nil => simp [Param.nameAll] at h
    | cons p rest =>
      simp only [Param.nameAll, List.length_cons, Bool.and_eq_true, beq_iff_eq, List.all_cons,
        Nat.add_right_cancel_iff] at h
      obtain ⟨hlen, hname, hrest⟩ := h
      obtain ⟨name, hp⟩ := Option.isSome_iff_exists.mp hname
      have hmore := ih rest (by simp [Param.nameAll, hlen, hrest])
      rw [labelNamed, List.map_cons, List.map_cons, List.tail_cons, ← hmore, List.head?_cons,
        Option.bind_some, hp]
      rfl

mutual

/-- Labelling a value without names gives a labelled value. -/
theorem labelled_label (components : List Param) (v : Value) (h : v.plain = v) :
    Labelled components (label components v) := by
  cases v with
  | array items =>
    rw [Value.plain] at h
    rw [label, Labelled]
    exact labelledAll_labelAll components items (Value.array.inj h)
  | tuple items =>
    rw [Value.plain] at h
    have hitems := Value.tuple.inj h
    rw [label]
    split
    · rename_i hnames
      rw [Labelled]
      exact ⟨names_labelNamed components items hnames,
        labelledFields_labelNamed components items hitems⟩
    · rename_i hnames
      have hlen : (labelEach components items).length = items.length :=
        length_labelEach components items
      rw [Labelled, hlen]
      refine ⟨?_, labelledEach_labelEach components items hitems⟩
      rintro ⟨hcount, hall⟩
      exact hnames (by simpa [Param.nameAll, hcount] using hall)
  | struct fields =>
    rw [Value.plain] at h
    cases h
  | _ => trivial

/-- Labelling the values of an array. -/
theorem labelledAll_labelAll (components : List Param) (vs : List Value)
    (h : plainItems vs = vs) : LabelledAll components (labelAll components vs) := by
  cases vs with
  | nil => trivial
  | cons v vs =>
    rw [plainItems, List.cons.injEq] at h
    rw [labelAll, LabelledAll]
    exact ⟨labelled_label components v h.1, labelledAll_labelAll components vs h.2⟩

/-- Labelling fields without names. -/
theorem labelledEach_labelEach (components : List Param) (vs : List Value)
    (h : plainItems vs = vs) : LabelledEach components (labelEach components vs) := by
  cases vs with
  | nil => trivial
  | cons v vs =>
    rw [plainItems, List.cons.injEq] at h
    rw [labelEach, LabelledEach]
    exact ⟨labelled_label _ v h.1, labelledEach_labelEach components.tail vs h.2⟩

/-- Labelling named fields. -/
theorem labelledFields_labelNamed (components : List Param) (vs : List Value)
    (h : plainItems vs = vs) : LabelledFields components (labelNamed components vs) := by
  cases vs with
  | nil => trivial
  | cons v vs =>
    rw [plainItems, List.cons.injEq] at h
    rw [labelNamed, LabelledFields]
    exact ⟨labelled_label _ v h.1, labelledFields_labelNamed components.tail vs h.2⟩

end

end RollupInput.Abi
