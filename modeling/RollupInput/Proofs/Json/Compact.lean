import RollupInput.Proofs.Json.Reading

/-!
# Compact text

The compact text of a value tells the value, if its numbers are natural numbers of 64 bits: the first
character tells the kind of the value, a quoted text ends at the first quote that is not escaped, and
the items and members of a container end with a comma or its closing bracket. Nothing is sorted and
no member is dropped, so this holds of objects that repeat a name as well. The induction is on the
value, with whatever stands behind its text.
-/

namespace RollupInput.Json

/-- The kinds of values. -/
inductive Kind where
  /-- The value `null`. -/
  | null
  /-- A truth value. -/
  | bool
  /-- A number. -/
  | num
  /-- A string. -/
  | str
  /-- An array. -/
  | arr
  /-- An object. -/
  | obj
  deriving DecidableEq

/-- The kind of a value. -/
def kind : Json → Kind
  | .null => .null
  | .bool _ => .bool
  | .num _ => .num
  | .str _ => .str
  | .arr _ => .arr
  | .obj _ => .obj

/-- The kind of the values whose text starts with a character, if there are any. -/
def kindOf? (c : Char) : Option Kind :=
  if Text.isDigit c then some .num
  else if c == 'n' then some .null
  else if c == 't' || c == 'f' then some .bool
  else if c == '"' then some .str
  else if c == '[' then some .arr
  else if c == braceOpen then some .obj
  else none

/-- What follows the first item of an array. -/
def behindItem : List Json → List Char
  | [] => [']']
  | v :: rest => ',' :: compactItems (v :: rest)

/-- What follows the first member of an object. -/
def behindMember : List (String × Json) → List Char
  | [] => [braceClose]
  | m :: rest => ',' :: compactMembers (m :: rest)

/-- The text of items is that of the first and what follows. -/
theorem compactItems_cons (v : Json) (rest : List Json) :
    compactItems (v :: rest) = compact v ++ behindItem rest := by
  cases rest <;> rfl

/-- The text of members is that of the first and what follows. -/
theorem compactMembers_cons (m : String × Json) (rest : List (String × Json)) :
    compactMembers (m :: rest) =
      quoted m.1.toList ++ ':' :: (compact m.2 ++ behindMember rest) := by
  cases rest <;> rfl

variable {v : Json} {r r' : List Char}

/-- The first character of the text of a value tells its kind. -/
theorem exists_compact_eq_cons (hv : v.HasSmallNumbers) :
    ∃ c cs, compact v = c :: cs ∧ kindOf? c = some v.kind := by
  cases v with
  | null => exact ⟨'n', _, rfl, by decide⟩
  | bool b =>
    cases b with
    | true => exact ⟨'t', _, rfl, by decide⟩
    | false => exact ⟨'f', _, rfl, by decide⟩
  | num n =>
    obtain ⟨k, rfl, -⟩ := exists_nat_of_hasSmallNumbers hv
    cases hdigits : Text.decimal k with
    | nil => exact absurd hdigits (Text.decimal_ne_nil k)
    | cons c cs =>
      have hdigit : Text.isDigit c = true :=
        Text.isDigit_of_mem_decimal (n := k) (by rw [hdigits]; exact .head cs)
      exact ⟨c, cs, hdigits, if_pos hdigit⟩
  | str s => exact ⟨'"', _, rfl, rfl⟩
  | arr items => exact ⟨'[', _, rfl, rfl⟩
  | obj members => exact ⟨braceOpen, _, rfl, rfl⟩

/-- Values whose texts start alike are of one kind. -/
theorem kind_eq_of_append_eq {w : Json} (hv : v.HasSmallNumbers) (hw : w.HasSmallNumbers)
    (h : compact v ++ r = compact w ++ r') : v.kind = w.kind := by
  obtain ⟨c, cs, hc, hkind⟩ := exists_compact_eq_cons hv
  obtain ⟨d, ds, hd, hkind'⟩ := exists_compact_eq_cons hw
  rw [hc, hd] at h
  rw [(List.cons.inj h).1, hkind'] at hkind
  exact (Option.some.inj hkind).symm

/-- The text of a value does not start as an array ends. -/
theorem compact_append_ne_bracket (hv : v.HasSmallNumbers) : compact v ++ r ≠ ']' :: r' := by
  obtain ⟨c, cs, hc, hkind⟩ := exists_compact_eq_cons hv
  intro h
  rw [hc] at h
  rw [(List.cons.inj h).1] at hkind
  cases hkind

/-- A text between quotes is cut from what follows in one way only. -/
theorem quoted_append_inj {cs ds : List Char} (h : quoted cs ++ r = quoted ds ++ r') :
    cs = ds ∧ r = r' := by
  have hread : ∀ (es : List Char) rest, readString (quoted es ++ rest).tail = .ok (es, rest) := by
    intro es rest
    have hquoted := readString_quoted es rest
    rwa [← List.singleton_append, ← List.append_assoc] at hquoted
  have hsame := hread cs r
  rw [h, hread ds r'] at hsame
  cases hsame
  exact ⟨rfl, rfl⟩

/-- What follows an item ends a number. -/
theorem endsNumber_behindItem (rest : List Json) (r : List Char) :
    EndsNumber (behindItem rest ++ r) := by
  cases rest <;> exact endsNumber_cons rfl _

/-- What follows a member ends a number. -/
theorem endsNumber_behindMember (rest : List (String × Json)) (r : List Char) :
    EndsNumber (behindMember rest ++ r) := by
  cases rest <;> exact endsNumber_cons rfl _

/-- The text of a number is cut from what follows in one way only. -/
theorem decimal_append_inj {m n : Nat} (hm : m ≤ maxSignificand) (hn : n ≤ maxSignificand)
    (hr : EndsNumber r) (hr' : EndsNumber r') (h : Text.decimal m ++ r = Text.decimal n ++ r') :
    m = n ∧ r = r' := by
  have hread := readNumber_decimal hm hr
  rw [h, readNumber_decimal hn hr'] at hread
  cases hread
  exact ⟨rfl, rfl⟩

mutual

/-- The text of a value is cut from what follows in one way only. -/
theorem compact_append_inj (v : Json) {w : Json} (hv : v.HasSmallNumbers) (hw : w.HasSmallNumbers)
    {r r' : List Char} (hr : EndsNumber r) (hr' : EndsNumber r')
    (h : compact v ++ r = compact w ++ r') : v = w ∧ r = r' := by
  -- the first character leaves the other value no kind but this one
  have hkind := kind_eq_of_append_eq hv hw h
  cases v with
  | null =>
    cases w <;> cases hkind
    exact ⟨rfl, List.append_cancel_left h⟩
  | bool b =>
    cases w <;> cases hkind
    rename_i b'
    cases b <;> cases b'
    · exact ⟨rfl, List.append_cancel_left h⟩
    · exact absurd (List.cons.inj h).1 (by decide)
    · exact absurd (List.cons.inj h).1 (by decide)
    · exact ⟨rfl, List.append_cancel_left h⟩
  | num n =>
    cases w <;> cases hkind
    obtain ⟨k, rfl, hk⟩ := exists_nat_of_hasSmallNumbers hv
    obtain ⟨k', rfl, hk'⟩ := exists_nat_of_hasSmallNumbers hw
    obtain ⟨rfl, hrest⟩ := decimal_append_inj hk hk' hr hr' h
    exact ⟨rfl, hrest⟩
  | str s =>
    cases w <;> cases hkind
    obtain ⟨hchars, hrest⟩ := quoted_append_inj h
    rw [String.toList_inj.mp hchars]
    exact ⟨rfl, hrest⟩
  | arr items =>
    cases w <;> cases hkind
    obtain ⟨rfl, hrest⟩ := compactItems_append_inj items hv hw (List.cons.inj h).2
    exact ⟨rfl, hrest⟩
  | obj members =>
    cases w <;> cases hkind
    obtain ⟨rfl, hrest⟩ := compactMembers_append_inj members hv hw (List.cons.inj h).2
    exact ⟨rfl, hrest⟩

/-- The text of the items of an array is cut from what follows in one way only. -/
theorem compactItems_append_inj (vs : List Json) {ws : List Json} (hvs : AllHaveSmallNumbers vs)
    (hws : AllHaveSmallNumbers ws) {r r' : List Char}
    (h : compactItems vs ++ r = compactItems ws ++ r') : vs = ws ∧ r = r' := by
  cases vs with
  | nil =>
    cases ws with
    | nil => exact ⟨rfl, List.append_cancel_left h⟩
    | cons w more =>
      rw [compactItems_cons, List.append_assoc] at h
      exact absurd h.symm (compact_append_ne_bracket hws.1)
  | cons v rest =>
    cases ws with
    | nil =>
      rw [compactItems_cons, List.append_assoc] at h
      exact absurd h (compact_append_ne_bracket hvs.1)
    | cons w more =>
      rw [compactItems_cons, compactItems_cons, List.append_assoc, List.append_assoc] at h
      obtain ⟨rfl, hbehind⟩ := compact_append_inj v hvs.1 hws.1 (endsNumber_behindItem rest r)
        (endsNumber_behindItem more r') h
      -- behind the first items both texts go on with a comma, or both end
      cases rest with
      | nil =>
        cases more with
        | nil => exact ⟨rfl, List.append_cancel_left hbehind⟩
        | cons _ _ => exact absurd (List.cons.inj hbehind).1 (by decide)
      | cons next rest =>
        cases more with
        | nil => exact absurd (List.cons.inj hbehind).1 (by decide)
        | cons next' more =>
          obtain ⟨hrest, hr⟩ := compactItems_append_inj (next :: rest) hvs.2 hws.2
            (List.cons.inj hbehind).2
          exact ⟨congrArg _ hrest, hr⟩

/-- The text of the members of an object is cut from what follows in one way only. -/
theorem compactMembers_append_inj (ms : List (String × Json)) {ns : List (String × Json)}
    (hms : MembersHaveSmallNumbers ms) (hns : MembersHaveSmallNumbers ns) {r r' : List Char}
    (h : compactMembers ms ++ r = compactMembers ns ++ r') : ms = ns ∧ r = r' := by
  cases ms with
  | nil =>
    cases ns with
    | nil => exact ⟨rfl, List.append_cancel_left h⟩
    | cons n more =>
      rw [compactMembers_cons] at h
      exact absurd (List.cons.inj h).1 (by decide)
  | cons m rest =>
    cases ns with
    | nil =>
      rw [compactMembers_cons] at h
      exact absurd (List.cons.inj h).1 (by decide)
    | cons n more =>
      rw [compactMembers_cons, compactMembers_cons, List.append_assoc, List.append_assoc] at h
      obtain ⟨hkey, hvalues⟩ := quoted_append_inj h
      rw [List.cons_append, List.cons_append, List.append_assoc, List.append_assoc] at hvalues
      obtain ⟨hvalue, hbehind⟩ := compact_append_inj m.2 hms.1 hns.1
        (endsNumber_behindMember rest r) (endsNumber_behindMember more r') (List.cons.inj hvalues).2
      have hfirst : m = n := Prod.ext (String.toList_inj.mp hkey) hvalue
      cases rest with
      | nil =>
        cases more with
        | nil => exact ⟨congrArg (· :: []) hfirst, List.append_cancel_left hbehind⟩
        | cons _ _ => exact absurd (List.cons.inj hbehind).1 (by decide)
      | cons next rest =>
        cases more with
        | nil => exact absurd (List.cons.inj hbehind).1 (by decide)
        | cons next' more =>
          obtain ⟨hrest, hr⟩ := compactMembers_append_inj (next :: rest) hms.2 hns.2
            (List.cons.inj hbehind).2
          rw [hfirst, hrest]
          exact ⟨rfl, hr⟩

end

/-- Values with the same compact text are the same. -/
theorem eq_of_text_eq {w : Json} (hv : v.HasSmallNumbers) (hw : w.HasSmallNumbers)
    (h : v.text = w.text) : v = w := by
  have hnone : EndsNumber [] := fun _ hc => by cases hc
  refine (compact_append_inj v hv hw hnone hnone ?_).1
  rw [List.append_nil, List.append_nil]
  exact String.ofList_inj.mp h

/-- The compact text of a string, which is its indented text, is read as the string. -/
theorem parse_text_str (s : String) : parse (text (.str s)) = .ok (.str s) :=
  @parse_pretty (.str s) trivial (Nat.zero_le _)

end RollupInput.Json
