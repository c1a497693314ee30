import RollupInput.Proofs.Contract.Written
import RollupInput.Proofs.Specification.Mode

/-!
# Written specifications

A specification that was read is read back from what it is written as. The members that are left
out are those that are read as absent, and the numbers are small because they were read as numbers
below their limits.
-/

namespace RollupInput

open Json

/-- Members of any kind that are strings or left out have no numbers. -/
theorem hasSmallNumbers_map_str (o : Option String) : ∀ v ∈ o.map Json.str, v.HasSmallNumbers := by
  intro v hv
  obtain ⟨s, -, rfl⟩ := Option.map_eq_some_iff.mp hv
  trivial

/-- Numbers below the limit of 64 bits are small. -/
theorem hasSmallNumbers_nat {n : Nat} (h : n < longLimit) : (Json.nat n).HasSmallNumbers :=
  Nat.le_sub_one_of_lt h

namespace ByteRange

/-- Whether a byte range can be read: its bounds are numbers of 64 bits. -/
structure IsReadable (r : ByteRange) : Prop where
  /-- The start is. -/
  start : r.start < longLimit
  /-- The end is. -/
  stop : ∀ n ∈ r.stop, n < longLimit

/-- What is read as a byte range can be read. -/
theorem isReadable_of_ofJson {v : Json} {r : ByteRange} (h : ofJson v = .ok r) : r.IsReadable := by
  obtain ⟨members, -, h⟩ := ok_of_bind h
  obtain ⟨start, hstart, h⟩ := ok_of_bind h
  obtain ⟨stop, hstop, h⟩ := ok_of_bind h
  obtain ⟨name, -, h⟩ := ok_of_bind h
  obtain ⟨type, -, h⟩ := ok_of_bind h
  obtain ⟨optional, -, h⟩ := ok_of_bind h
  cases h
  constructor
  · obtain ⟨w, hw⟩ := exists_of_required hstart
    exact lt_of_asNatBelow hw
  · intro n hn
    obtain ⟨w, hw⟩ := exists_of_optional hstop n hn
    exact lt_of_asNatBelow hw

/-- Byte ranges are read back. -/
theorem isReadBack {r : ByteRange} (h : r.IsReadable) : IsReadBack ofJson json r := by
  obtain ⟨members, hjson, hnodup, hstart, hstop, hname, htype, hoptional⟩ :
      ∃ members, r.json = object members ∧ (members.map (·.1)).Nodup ∧
        members.lookup "from" = some (some (.nat r.start)) ∧
        members.lookup "to" = some (r.stop.map .nat) ∧
        members.lookup "name" = some (r.name.map .str) ∧
        members.lookup "type" = some (r.type.map .str) ∧
        members.lookup "optional" = some (r.optional.map .bool) :=
    ⟨_, rfl, by simp, rfl, rfl, rfl, rfl, rfl⟩
  unfold IsReadBack ofJson
  rw [hjson]
  refine (bind_of_ok (fields_sorted_object _ members) _).trans ?_
  refine (bind_of_ok (required_present (isReadBack_nat h.start) hnodup hstart) _).trans ?_
  refine (bind_of_ok (optional_present hnodup hstop (by rintro n ⟨⟩)
    fun n hn => isReadBack_nat (h.stop n hn)) _).trans ?_
  refine (bind_of_ok (optional_present hnodup hname (by rintro s ⟨⟩)
    fun s _ => isReadBack_string s) _).trans ?_
  refine (bind_of_ok (optional_present hnodup htype (by rintro s ⟨⟩)
    fun s _ => isReadBack_string s) _).trans ?_
  refine (bind_of_ok (optional_present hnodup hoptional (by rintro b ⟨⟩)
    fun b _ => isReadBack_bool b) _).trans ?_
  rfl

/-- The numbers of a written byte range are small. -/
theorem hasSmallNumbers_json {r : ByteRange} (h : r.IsReadable) : r.json.HasSmallNumbers := by
  refine hasSmallNumbers_object ?_
  intro m hm v hv
  simp only [List.mem_cons, List.not_mem_nil, or_false] at hm
  rcases hm with rfl | rfl | rfl | rfl | rfl
  · cases hv
    exact hasSmallNumbers_nat h.start
  · obtain ⟨n, hn, rfl⟩ := Option.map_eq_some_iff.mp hv
    exact hasSmallNumbers_nat (h.stop n hn)
  · exact hasSmallNumbers_map_str r.name v hv
  · exact hasSmallNumbers_map_str r.type v hv
  · obtain ⟨b, -, rfl⟩ := Option.map_eq_some_iff.mp hv
    trivial

end ByteRange

/-- Conditions are read back. -/
theorem Condition.isReadBack (c : Condition) : IsReadBack Condition.ofJson Condition.json c := by
  obtain ⟨members, hjson, hnodup, hfield, hoperator, hvalue⟩ :
      ∃ members, c.json = object members ∧ (members.map (·.1)).Nodup ∧
        members.lookup "field" = some (some (.str c.field.text)) ∧
        members.lookup "operator" = some (some (.str c.operator.text)) ∧
        members.lookup "value" = some (some (.str c.value)) :=
    ⟨_, obj_eq_object _, by simp, rfl, rfl, rfl⟩
  have hreadField : IsReadBack (asChoice isNull InputField.choices) (fun f => .str f.text) c.field :=
    isReadBack_choice isNull (by cases c.field <;> rfl)
  have hreadOperator : IsReadBack (asChoice isNull Comparison.choices) (fun o => .str o.text)
      c.operator := isReadBack_choice isNull (by cases c.operator; rfl)
  unfold IsReadBack Condition.ofJson
  rw [hjson]
  refine (bind_of_ok (fields_sorted_object _ members) _).trans ?_
  refine (bind_of_ok (required_present hreadField hnodup hfield) _).trans ?_
  refine (bind_of_ok (required_present hreadOperator hnodup hoperator) _).trans ?_
  exact (bind_of_ok (required_present (isReadBack_string c.value) hnodup hvalue) _).trans rfl

/-- Predicates are read back. -/
theorem Predicate.isReadBack (p : Predicate) : IsReadBack Predicate.ofJson Predicate.json p := by
  obtain ⟨members, hjson, hnodup, hoperator, hconditions⟩ :
      ∃ members, p.json = object members ∧ (members.map (·.1)).Nodup ∧
        members.lookup "logicalOperator" = some (some (.str p.operator.text)) ∧
        members.lookup "conditions" = some (some (.arr (p.conditions.map Condition.json))) :=
    ⟨_, obj_eq_object _, by simp, rfl, rfl⟩
  have hreadOperator : IsReadBack (asChoice isNull Connective.choices) (fun o => .str o.text)
      p.operator := isReadBack_choice isNull (by cases p.operator <;> rfl)
  have hreadConditions := isReadBack_list fun c (_ : c ∈ p.conditions) => c.isReadBack
  unfold IsReadBack Predicate.ofJson
  rw [hjson]
  refine (bind_of_ok (fields_sorted_object _ members) _).trans ?_
  refine (bind_of_ok (required_present hreadOperator hnodup hoperator) _).trans ?_
  exact (bind_of_ok (required_present hreadConditions hnodup hconditions) _).trans rfl

/-- Written predicates have no numbers. -/
theorem Predicate.hasSmallNumbers_json (p : Predicate) : p.json.HasSmallNumbers := by
  have hconditions : (Json.arr (p.conditions.map Condition.json)).HasSmallNumbers := by
    refine hasSmallNumbers_arr ?_
    intro v hv
    obtain ⟨c, -, rfl⟩ := List.mem_map.mp hv
    exact ⟨trivial, trivial, trivial, trivial⟩
  exact ⟨trivial, hconditions, trivial⟩

/-- Whether a mode can be read: its byte ranges or its interface can. -/
def Mode.IsReadable : Mode → Prop
  | .params m => ∀ ranges ∈ m.ranges, ∀ r ∈ ranges, r.IsReadable
  | .contract abi => abi.IsReadable

namespace Specification

/-- What is read as a mode can be read. -/
theorem isReadable_of_readMode {name : String} {members : List (String × Json)} {mode : Mode}
    (h : readMode name members = .ok mode) : mode.IsReadable := by
  unfold readMode at h
  split at h
  · obtain ⟨abi, habi, h⟩ := ok_of_bind h
    cases h
    obtain ⟨v, hv⟩ := exists_of_required habi
    exact Contract.Interface.isReadable_of_ofJson hv
  · obtain ⟨declarations, -, h⟩ := ok_of_bind h
    obtain ⟨ranges, hranges, h⟩ := ok_of_bind h
    obtain ⟨target, -, h⟩ := ok_of_bind h
    cases h
    intro rs hrs r hr
    obtain ⟨v, hv⟩ := exists_of_optional hranges rs hrs
    obtain ⟨w, hw⟩ := exists_of_asList hv r hr
    exact ByteRange.isReadable_of_ofJson hw

/-- A mode that can be read is read back, wherever its members stand. -/
theorem readMode_present {members : List (String × Option Json)} (hnodup : (members.map (·.1)).Nodup)
    {mode : Mode} (hmembers : ∀ m ∈ modeMembers mode, members.lookup m.1 = some m.2)
    (h : mode.IsReadable) : readMode mode.name (present members) = .ok mode := by
  cases mode with
  | params m =>
    simp only [modeMembers, List.forall_mem_cons] at hmembers
    obtain ⟨hdeclarations, hranges, htarget, -⟩ := hmembers
    have hreadDeclarations := isReadBack_list fun s (_ : s ∈ m.declarations) => isReadBack_string s
    have hreadRanges : ∀ ranges ∈ m.ranges, IsReadBack (asList ByteRange.ofJson)
        (fun ranges => .arr (ranges.map ByteRange.json)) ranges := fun ranges hranges =>
      isReadBack_list fun r hr => ByteRange.isReadBack (h ranges hranges r hr)
    refine (bind_of_ok (defaulted_present hreadDeclarations [] hnodup hdeclarations) _).trans ?_
    refine (bind_of_ok (optional_present hnodup hranges (by rintro r ⟨⟩) hreadRanges) _).trans ?_
    refine (bind_of_ok (optional_present hnodup htarget (by rintro s ⟨⟩)
      fun s _ => isReadBack_string s) _).trans ?_
    rfl
  | contract abi =>
    have habi := hmembers ("abi", some abi.json) List.mem_cons_self
    exact (bind_of_ok (required_present (Contract.isReadBack_interface h) hnodup habi) _).trans rfl

/-- The numbers of the members of a mode are small. -/
theorem hasSmallNumbers_modeMembers {mode : Mode} (h : mode.IsReadable) :
    ∀ m ∈ modeMembers mode, ∀ v ∈ m.2, v.HasSmallNumbers := by
  intro m hm v hv
  cases mode with
  | params mode =>
    simp only [modeMembers, List.mem_cons, List.not_mem_nil, or_false] at hm
    rcases hm with rfl | rfl | rfl
    · cases hv
      refine hasSmallNumbers_arr ?_
      intro w hw
      obtain ⟨s, -, rfl⟩ := List.mem_map.mp hw
      trivial
    · obtain ⟨ranges, hranges, rfl⟩ := Option.map_eq_some_iff.mp hv
      refine hasSmallNumbers_arr ?_
      intro w hw
      obtain ⟨r, hr, rfl⟩ := List.mem_map.mp hw
      exact ByteRange.hasSmallNumbers_json (h ranges hranges r hr)
    · exact hasSmallNumbers_map_str mode.target v hv
  | contract abi =>
    obtain rfl := List.mem_singleton.mp hm
    cases hv
    exact abi.hasSmallNumbers_json

/-- Whether a specification can be read: its numbers are below their limits and its mode can be
read. -/
structure IsReadable (s : Specification) : Prop where
  /-- The timestamp is a number of 64 bits. -/
  timestamp : s.timestamp < longLimit
  /-- The version is a number of 32 bits. -/
  version : s.version < versionLimit
  /-- The mode can be read. -/
  mode : s.mode.IsReadable

/-- A number that is zero or read below a limit is below the limit. -/
theorem lt_of_defaulted {name : String} {limit n : Nat} {members : List (String × Json)}
    (hpos : 0 < limit) (h : defaulted name 0 (asNatBelow limit) members = .ok n) : n < limit := by
  rcases eq_or_exists_of_defaulted h with rfl | ⟨w, hw⟩
  · exact hpos
  · exact lt_of_asNatBelow hw

/-- What is read as a specification can be read. -/
theorem isReadable_of_ofJson {v : Json} {s : Specification} (h : ofJson v = .ok s) :
    s.IsReadable := by
  unfold ofJson at h
  dsimp only at h
  split at h
  · have hread := ok_of_mapError h
    obtain ⟨members, -, hread⟩ := ok_of_bind hread
    obtain ⟨id, -, hread⟩ := ok_of_bind hread
    obtain ⟨name, -, hread⟩ := ok_of_bind hread
    obtain ⟨timestamp, htimestamp, hread⟩ := ok_of_bind hread
    obtain ⟨version, hversion, hread⟩ := ok_of_bind hread
    obtain ⟨conditionals, -, hread⟩ := ok_of_bind hread
    obtain ⟨mode, hmode, hread⟩ := ok_of_bind hread
    cases hread
    exact ⟨lt_of_defaulted (Nat.pow_pos Nat.zero_lt_two) htimestamp,
      lt_of_defaulted (Nat.pow_pos Nat.zero_lt_two) hversion, isReadable_of_readMode hmode⟩
  · cases h

/-- Whether the members of a specification are among some members. -/
structure IsListed (members : List (String × Option Json)) (s : Specification) : Prop where
  /-- No name is repeated. -/
  nodup : (members.map (·.1)).Nodup
  /-- The identifier is there. -/
  id : members.lookup "id" = some (s.id.map .str)
  /-- The name is there. -/
  name : members.lookup "name" = some (some (.str s.name))
  /-- The timestamp is there. -/
  timestamp : members.lookup "timestamp" = some (some (.nat s.timestamp))
  /-- The version is there. -/
  version : members.lookup "version" = some (some (.nat s.version))
  /-- The name of the mode is there. -/
  modeName : members.lookup "mode" = some (some (.str s.mode.name))
  /-- The predicates are there. -/
  conditionals : members.lookup "conditionals" =
    some (s.conditionals.map fun predicates => .arr (predicates.map Predicate.json))
  /-- The members of the mode are there. -/
  mode : ∀ m ∈ modeMembers s.mode, members.lookup m.1 = some m.2

/-- A specification is written as its members. -/
theorem exists_isListed (s : Specification) :
    ∃ members, s.json = object members ∧ IsListed members s := by
  obtain ⟨id, name, timestamp, version, mode, conditionals⟩ := s
  refine ⟨_, rfl, ?_⟩
  cases mode with
  | params m =>
    exact ⟨by simp [modeMembers], rfl, rfl, rfl, rfl, rfl, rfl, List.forall_mem_cons.mpr
      ⟨rfl, List.forall_mem_cons.mpr ⟨rfl, List.forall_mem_singleton.mpr rfl⟩⟩⟩
  | contract abi =>
    exact ⟨by simp [modeMembers], rfl, rfl, rfl, rfl, rfl, rfl, List.forall_mem_singleton.mpr rfl⟩

/-- The mode of a written specification is the name of its mode. -/
theorem modeText_present {members : List (String × Option Json)} {s : Specification}
    (h : IsListed members s) : modeText (.obj (present members)) = s.mode.name := by
  have hmember : (Json.obj (present members)).member? "mode" = some (.str s.mode.name) := by
    rw [member?, lookup_present_sorted h.nodup, h.modeName]
    rfl
  unfold modeText
  rw [hmember]

/-- Specifications that can be read are read back. -/
theorem ofJson_json_sorted {s : Specification} (h : s.IsReadable) :
    ofJson s.json.sorted = .ok s := by
  obtain ⟨members, hjson, hlisted⟩ := exists_isListed s
  have hnodup := hlisted.nodup
  have hknown : modeNames.contains s.mode.name = true := by
    cases s.mode <;> rfl
  have hreadPredicates : ∀ predicates ∈ s.conditionals, IsReadBack (asList Predicate.ofJson)
      (fun predicates => .arr (predicates.map Predicate.json)) predicates :=
    fun predicates _ => isReadBack_list fun p _ => p.isReadBack
  have hread : readMembers s.mode.name (.obj (present members)) = .ok s := by
    refine (bind_of_ok (rfl : objectFields (.obj (present members)) = .ok _) _).trans ?_
    refine (bind_of_ok (optional_present hnodup hlisted.id (by rintro s ⟨⟩)
      fun s _ => isReadBack_string s) _).trans ?_
    refine (bind_of_ok (required_present (isReadBack_string _) hnodup hlisted.name) _).trans ?_
    refine (bind_of_ok (defaulted_present (isReadBack_nat h.timestamp) 0 hnodup
      hlisted.timestamp) _).trans ?_
    refine (bind_of_ok (defaulted_present (isReadBack_nat h.version) 0 hnodup
      hlisted.version) _).trans ?_
    refine (bind_of_ok (optional_present hnodup hlisted.conditionals (by rintro p ⟨⟩)
      hreadPredicates) _).trans ?_
    exact (bind_of_ok (readMode_present hnodup hlisted.mode h.mode) _).trans rfl
  unfold ofJson
  rw [hjson, sorted_object, modeText_present hlisted]
  dsimp only
  rw [if_pos hknown, hread]
  rfl

/-- The numbers of a written specification are small. -/
theorem hasSmallNumbers_json {s : Specification} (h : s.IsReadable) : s.json.HasSmallNumbers := by
  have hversion : s.version < longLimit := Nat.lt_trans h.version (by decide)
  refine hasSmallNumbers_object ?_
  intro m hm v hv
  rcases List.mem_append.mp hm with hm | hm
  · rcases List.mem_append.mp hm with hm | hm
    · simp only [List.mem_cons, List.not_mem_nil, or_false] at hm
      rcases hm with rfl | rfl | rfl | rfl | rfl
      · exact hasSmallNumbers_map_str s.id v hv
      · cases hv
        trivial
      · cases hv
        exact hasSmallNumbers_nat h.timestamp
      · cases hv
        exact hasSmallNumbers_nat hversion
      · cases hv
        trivial
    · exact hasSmallNumbers_modeMembers h.mode m hm v hv
  · obtain rfl := List.mem_singleton.mp hm
    obtain ⟨predicates, -, rfl⟩ := Option.map_eq_some_iff.mp hv
    refine hasSmallNumbers_arr ?_
    intro w hw
    obtain ⟨p, -, rfl⟩ := List.mem_map.mp hw
    exact p.hasSmallNumbers_json

end Specification

end RollupInput
