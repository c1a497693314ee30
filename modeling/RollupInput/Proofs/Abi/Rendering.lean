import RollupInput.Proofs.Abi.Checksum
import RollupInput.Proofs.Abi.Label
import RollupInput.Proofs.Json.Compact

/-!
# Renderings

The display text of a value is its JSON text, or the content of it if that is a string. Either of
the two texts tells the value among all values of one type, whatever names its structs carry: the
type tells which kind of scalar a string stands for, and the text tells all else. The induction is
on the value, with the values of its containers.
-/

namespace RollupInput.Abi

namespace Value

/-- Whether the JSON rendering is a string: the value is a scalar and no truth value. -/
def isQuoted : Value → Bool
  | .int _ | .uint _ | .address _ | .bytes _ | .string _ => true
  | _ => false

/-- Whether the two renderings of a value go together. -/
structure IsRendered (v : Value) : Prop where
  /-- The display text is the JSON text if that is no string. -/
  bare : v.isQuoted = false → v.display = v.json.text
  /-- Otherwise it is the content of the string, which is read from the JSON text. -/
  quoted : v.isQuoted = true → v.json.text = Json.text (.str v.display) ∧
    Json.parse v.json.text = .ok (.str v.display)

variable {v w : Value}

/-- A value whose rendering is no string is displayed as its JSON text. -/
theorem display_of_isQuoted_eq_false (h : v.isQuoted = false) : v.display = v.json.text := by
  cases v with
  | bool b => cases b <;> rfl
  | array items => rfl
  | tuple items => rfl
  | struct fields => rfl
  | _ => cases h

/-- A value whose rendering is a string is displayed as its content. -/
theorem json_of_isQuoted (h : v.isQuoted = true) : v.json = .str v.display := by
  cases v with
  | bool b => cases h
  | array items => cases h
  | tuple items => cases h
  | struct fields => cases h
  | _ => rfl

/-- The renderings of a value go together. -/
theorem isRendered (v : Value) : v.IsRendered where
  bare := display_of_isQuoted_eq_false
  quoted := by
    intro h
    rw [json_of_isQuoted h]
    exact ⟨rfl, Json.parse_text_str v.display⟩

mutual

/-- The JSON rendering of a value has no numbers. -/
theorem hasSmallNumbers_json (v : Value) : v.json.HasSmallNumbers := by
  cases v with
  | array items => exact allHaveSmallNumbers_jsonItems items
  | tuple items => exact allHaveSmallNumbers_jsonItems items
  | struct fields => exact membersHaveSmallNumbers_jsonFields fields
  | _ => trivial

/-- The JSON renderings of values have no numbers. -/
theorem allHaveSmallNumbers_jsonItems (vs : List Value) :
    Json.AllHaveSmallNumbers (jsonItems vs) := by
  cases vs with
  | nil => trivial
  | cons v rest => exact ⟨hasSmallNumbers_json v, allHaveSmallNumbers_jsonItems rest⟩

/-- The JSON renderings of named values have no numbers. -/
theorem membersHaveSmallNumbers_jsonFields (fields : List (String × Value)) :
    Json.MembersHaveSmallNumbers (jsonFields fields) := by
  cases fields with
  | nil => trivial
  | cons f rest => exact ⟨hasSmallNumbers_json f.2, membersHaveSmallNumbers_jsonFields rest⟩

end

end Value

/-- Different integers have different texts. -/
theorem intText_inj {i j : Int} (h : Value.intText i = Value.intText j) : i = j := by
  have hminus : ∀ m n : Nat, Text.decimal m ≠ '-' :: Text.decimal n := by
    intro m n heq
    have hdigit : Text.isDigit '-' = true :=
      @Text.isDigit_of_mem_decimal m _ (by rw [heq]; exact .head _)
    exact absurd hdigit (by decide)
  have hchars := String.ofList_inj.mp h
  cases i with
  | ofNat m =>
    cases j with
    | ofNat n => rw [Text.decimal_inj hchars]
    | negSucc n => exact absurd hchars (hminus m _)
  | negSucc m =>
    cases j with
    | ofNat n => exact absurd hchars.symm (hminus n _)
    | negSucc n =>
      have hsame := Text.decimal_inj (List.cons.inj hchars).2
      rw [Nat.succ.inj hsame]

open Value

mutual

/-- Values of one type, but for their names, are the same if their JSON renderings are. -/
theorem eq_of_json_eq (t : AbiType) (v w : Value) (hv : HasType t v.plain) (hw : HasType t w.plain)
    (h : v.json = w.json) : v = w := by
  -- the type goes with the value, and leaves the other no constructor but the same; only a tuple
  -- and a struct are of one type, and these differ in their renderings
  cases v with
  | bool b =>
    cases t <;> first | exact False.elim hv | skip
    cases w <;> first | exact False.elim hw | skip
    exact congrArg Value.bool (Json.bool.inj h)
  | int i =>
    cases t <;> first | exact False.elim hv | skip
    cases w <;> first | exact False.elim hw | skip
    exact congrArg Value.int (intText_inj (Json.str.inj h))
  | uint n =>
    cases t <;> first | exact False.elim hv | skip
    cases w <;> first | exact False.elim hw | skip
    exact congrArg Value.uint (Int.ofNat.inj (intText_inj (Json.str.inj h)))
  | address bs =>
    cases t <;> first | exact False.elim hv | skip
    cases w <;> first | exact False.elim hw | skip
    exact congrArg Value.address (checksummed_inj hv hw (Json.str.inj h))
  | bytes bs =>
    cases t <;> first | exact False.elim hv | skip
    all_goals
      cases w <;> first | exact False.elim hw | skip
      exact congrArg Value.bytes (Text.Hex.ofBytes_inj (Json.str.inj h))
  | string s =>
    cases t <;> first | exact False.elim hv | skip
    cases w <;> first | exact False.elim hw | skip
    exact congrArg Value.string (Json.str.inj h)
  | array items =>
    cases t <;> first | exact False.elim hv | skip
    · cases w <;> first | exact False.elim hw | skip
      exact congrArg Value.array (eq_of_jsonItems_eq _ items _ hv hw (Json.arr.inj h))
    · cases w <;> first | exact False.elim hw | skip
      exact congrArg Value.array (eq_of_jsonItems_eq _ items _ hv.2 hw.2 (Json.arr.inj h))
  | tuple items =>
    cases t <;> first | exact False.elim hv | skip
    cases w <;> first | exact False.elim hw | skip
    · exact congrArg Value.tuple (eq_of_jsonItems_eq_of_haveTypes _ items _ hv hw (Json.arr.inj h))
    · cases h
  | struct fields =>
    cases t <;> first | exact False.elim hv | skip
    cases w <;> first | exact False.elim hw | skip
    · cases h
    · exact congrArg Value.struct (eq_of_jsonFields_eq _ fields _ hv hw (Json.obj.inj h))

/-- The same for values that are all of one type. -/
theorem eq_of_jsonItems_eq (t : AbiType) (vs ws : List Value)
    (hvs : ∀ v ∈ plainItems vs, HasType t v) (hws : ∀ w ∈ plainItems ws, HasType t w)
    (h : jsonItems vs = jsonItems ws) : vs = ws := by
  cases vs with
  | nil =>
    cases ws with
    | nil => rfl
    | cons w more => cases h
  | cons v rest =>
    cases ws with
    | nil => cases h
    | cons w more =>
      obtain ⟨hv, hrest⟩ := List.forall_mem_cons.mp hvs
      obtain ⟨hw, hmore⟩ := List.forall_mem_cons.mp hws
      obtain ⟨hfirst, htail⟩ := List.cons.inj h
      rw [eq_of_json_eq t v w hv hw hfirst, eq_of_jsonItems_eq t rest more hrest hmore htail]

/-- The same for values of several types, one for one. -/
theorem eq_of_jsonItems_eq_of_haveTypes (ts : List AbiType) (vs ws : List Value)
    (hvs : HaveTypes ts (plainItems vs)) (hws : HaveTypes ts (plainItems ws))
    (h : jsonItems vs = jsonItems ws) : vs = ws := by
  cases vs with
  | nil =>
    cases ws with
    | nil => rfl
    | cons w more => cases h
  | cons v rest =>
    cases ws with
    | nil => cases h
    | cons w more =>
      cases ts with
      | nil => exact False.elim hvs
      | cons t ts =>
        obtain ⟨hfirst, htail⟩ := List.cons.inj h
        rw [eq_of_json_eq t v w hvs.1 hws.1 hfirst,
          eq_of_jsonItems_eq_of_haveTypes ts rest more hvs.2 hws.2 htail]

/-- The same for named values of several types. Their names are in the rendering. -/
theorem eq_of_jsonFields_eq (ts : List AbiType) (fs gs : List (String × Value))
    (hfs : HaveTypes ts (plainFields fs)) (hgs : HaveTypes ts (plainFields gs))
    (h : jsonFields fs = jsonFields gs) : fs = gs := by
  cases fs with
  | nil =>
    cases gs with
    | nil => rfl
    | cons g more => cases h
  | cons f rest =>
    cases gs with
    | nil => cases h
    | cons g more =>
      cases ts with
      | nil => exact False.elim hfs
      | cons t ts =>
        obtain ⟨hfirst, htail⟩ := List.cons.inj h
        obtain ⟨hname, hvalue⟩ := Prod.mk.inj hfirst
        have hsame : f = g := Prod.ext hname (eq_of_json_eq t f.2 g.2 hfs.1 hgs.1 hvalue)
        rw [hsame, eq_of_jsonFields_eq ts rest more hfs.2 hgs.2 htail]

end

/-- Values of one type are both rendered as strings or both not. -/
theorem isQuoted_eq {t : AbiType} {v w : Value} (hv : HasType t v.plain) (hw : HasType t w.plain) :
    v.isQuoted = w.isQuoted := by
  cases t <;> cases v <;> first | exact False.elim hv | skip
  all_goals cases w <;> first | exact False.elim hw | rfl

/-- Values of one type that are displayed alike have the same JSON rendering. -/
theorem json_eq_of_display_eq {t : AbiType} {v w : Value} (hv : HasType t v.plain)
    (hw : HasType t w.plain) (h : v.display = w.display) : v.json = w.json := by
  have hquoted := isQuoted_eq hv hw
  cases hcase : v.isQuoted with
  | true => rw [json_of_isQuoted hcase, json_of_isQuoted (hquoted ▸ hcase), h]
  | false =>
    rw [display_of_isQuoted_eq_false hcase, display_of_isQuoted_eq_false (hquoted ▸ hcase)] at h
    exact Json.eq_of_text_eq (hasSmallNumbers_json v) (hasSmallNumbers_json w) h

/-- Two values of the type of a parameter are the same if they are displayed alike, and if they have
the same JSON text. Whatever the value, the two texts go together: the one is the other, or the
content of the string that the other is. -/
theorem renderings_tell_values :
    (∀ (p : Param) (v w : Value), HasType p.type v.plain → HasType p.type w.plain →
      v.display = w.display ∨ v.json.text = w.json.text → v = w) ∧
    ∀ v : Value, v.IsRendered := by
  refine ⟨fun p v w hv hw h => eq_of_json_eq p.type v w hv hw ?_, isRendered⟩
  rcases h with hdisplay | htext
  · exact json_eq_of_display_eq hv hw hdisplay
  · exact Json.eq_of_text_eq (hasSmallNumbers_json v) (hasSmallNumbers_json w) htext

/-- A parameter of an array of texts. -/
def notesParam : Param := ⟨some "notes", "string[]", .array .string, []⟩

/-- Two texts. -/
def notes : Value := .array [.string "a", .string "b"]

/-- One text that has the marks between the two in it. -/
def joinedNotes : Value := .array [.string "a\",\"b"]

/-- The marks between two texts are told from marks in a text. A value that is displayed as the two
texts are, is the two texts. -/
theorem renderings_tell_notes :
    HasType notesParam.type notes.plain ∧ HasType notesParam.type joinedNotes.plain ∧
    notes.display = "[\"a\",\"b\"]" ∧ joinedNotes.display = "[\"a\\\",\\\"b\"]" ∧
    notes.display ≠ joinedNotes.display ∧
    (label notesParam.components notes).display = notes.display ∧
    label notesParam.components notes = notes ∧
    (Value.string "a").display = "a" ∧ (Value.string "a").json.text = "\"a\"" := by
  obtain ⟨htells, hrendered⟩ := renderings_tell_values
  have hnotes : HasType notesParam.type notes.plain :=
    List.forall_mem_cons.mpr ⟨trivial, List.forall_mem_singleton.mpr trivial⟩
  have hjoined : HasType notesParam.type joinedNotes.plain := List.forall_mem_singleton.mpr trivial
  have hdisplay : (label notesParam.components notes).display = notes.display := by rfl
  have hne : notes ≠ joinedNotes := by
    intro h
    have hlength := congrArg List.length (Value.array.inj h)
    exact absurd hlength (by decide)
  have hone := ((hrendered (.string "a")).quoted rfl).1
  exact ⟨hnotes, hjoined, by rfl, by rfl, fun h => hne (htells _ _ _ hnotes hjoined (.inl h)),
    hdisplay, htells notesParam _ _ hnotes hnotes (.inl hdisplay), by rfl, hone.trans (by rfl)⟩

end RollupInput.Abi
