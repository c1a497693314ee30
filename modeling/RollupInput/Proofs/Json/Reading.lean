import Mathlib.Data.List.DropRight
import RollupInput.Proofs.Json.Scalars
import RollupInput.Proofs.Json.Sorted

/-!
# Reading indented text

The indented text of a value reads as the value with its members sorted, if its numbers are natural
numbers of 64 bits and its containers nest no deeper than the reader admits. Every step of the
reader leaves fewer characters, so twice their number is enough steps. The induction is on the
value, with the items and members of its containers.
-/

namespace RollupInput.Json

mutual

/-- Whether all numbers of a value are natural numbers of 64 bits. -/
def HasSmallNumbers : Json → Prop
  | .num (.int (.ofNat n)) => n ≤ maxSignificand
  | .num _ => False
  | .arr items => AllHaveSmallNumbers items
  | .obj members => MembersHaveSmallNumbers members
  | _ => True

/-- Whether all numbers of the items of an array are natural numbers of 64 bits. -/
def AllHaveSmallNumbers : List Json → Prop
  | [] => True
  | v :: rest => HasSmallNumbers v ∧ AllHaveSmallNumbers rest

/-- Whether all numbers of the members of an object are natural numbers of 64 bits. -/
def MembersHaveSmallNumbers : List (String × Json) → Prop
  | [] => True
  | (_, v) :: rest => HasSmallNumbers v ∧ MembersHaveSmallNumbers rest

end

/-- The items of an array are looked at one by one. -/
theorem allHaveSmallNumbers_iff (items : List Json) :
    AllHaveSmallNumbers items ↔ ∀ v ∈ items, v.HasSmallNumbers := by
  induction items with
  | nil => simp [AllHaveSmallNumbers]
  | cons v rest ih => rw [AllHaveSmallNumbers, ih, List.forall_mem_cons]

/-- The members of an object are looked at one by one. -/
theorem membersHaveSmallNumbers_iff (members : List (String × Json)) :
    MembersHaveSmallNumbers members ↔ ∀ m ∈ members, m.2.HasSmallNumbers := by
  induction members with
  | nil => simp [MembersHaveSmallNumbers]
  | cons m rest ih =>
    obtain ⟨name, v⟩ := m
    rw [MembersHaveSmallNumbers, ih, List.forall_mem_cons]

/-- An array of values has the numbers of the values. -/
theorem hasSmallNumbers_arr {items : List Json} (h : ∀ v ∈ items, v.HasSmallNumbers) :
    (Json.arr items).HasSmallNumbers := by
  rw [HasSmallNumbers]
  exact (allHaveSmallNumbers_iff items).mpr h

/-- An object has the numbers of the members that are there. -/
theorem hasSmallNumbers_object {members : List (String × Option Json)}
    (h : ∀ m ∈ members, ∀ v ∈ m.2, v.HasSmallNumbers) : (object members).HasSmallNumbers := by
  rw [object, HasSmallNumbers, membersHaveSmallNumbers_iff]
  intro m hm
  obtain ⟨whole, hwhole, hpresent⟩ := List.mem_filterMap.mp hm
  obtain ⟨v, hv, rfl⟩ := Option.map_eq_some_iff.mp hpresent
  exact h whole hwhole v hv

/-- A number of 64 bits is a natural number. -/
theorem exists_nat_of_hasSmallNumbers {n : JsonNumber} (h : HasSmallNumbers (.num n)) :
    ∃ k, n = .int (Int.ofNat k) ∧ k ≤ maxSignificand := by
  cases n with
  | int value =>
    cases value with
    | ofNat k => exact ⟨k, rfl, h⟩
    | negSucc k => exact False.elim h
  | double x => exact False.elim h

/-- The spaces in front of a text are skipped. -/
theorem skipSpace_append {gap : List Char} (h : gap.all isSpace = true) (cs : List Char) :
    skipSpace (gap ++ cs) = skipSpace cs :=
  List.dropWhile_append_of_pos (List.all_eq_true.mp h)

/-- A line break with its indentation is made of spaces. -/
theorem all_isSpace_newline (level : Nat) : (newline level).all isSpace = true := by
  rw [newline, List.all_cons, Bool.and_eq_true]
  refine ⟨rfl, List.all_eq_true.mpr fun c hc => ?_⟩
  rw [List.eq_of_mem_replicate hc]
  rfl

/-- A line break in front of a text is skipped. -/
theorem skipSpace_newline (level : Nat) (cs : List Char) :
    skipSpace (newline level ++ cs) = skipSpace cs :=
  skipSpace_append (all_isSpace_newline level) cs

/-- A text that starts with another character than a space is left as it is. -/
theorem skipSpace_cons {c : Char} (h : isSpace c = false) (cs : List Char) :
    skipSpace (c :: cs) = c :: cs :=
  List.dropWhile_cons_of_neg (by rw [h]; exact Bool.false_ne_true)

/-- Skipping spaces again changes nothing. -/
theorem skipSpace_skipSpace (cs : List Char) : skipSpace (skipSpace cs) = skipSpace cs :=
  List.dropWhile_idempotent isSpace cs

/-- What follows a value in an indented text does not go on with a number. -/
theorem endsNumber_newline (level : Nat) (cs : List Char) : EndsNumber (newline level ++ cs) :=
  endsNumber_cons rfl _

/-- A comma does not go on with a number. -/
theorem endsNumber_comma (cs : List Char) : EndsNumber (',' :: cs) := endsNumber_cons rfl cs

/-- The spaces in front of a value do not matter. -/
theorem readValue_skipSpace (steps depth : Nat) (cs : List Char) :
    readValue (steps + 1) depth (skipSpace cs) = readValue (steps + 1) depth cs := by
  rw [readValue, readValue, skipSpace_skipSpace]

/-- The spaces in front of the first item do not matter. -/
theorem readItems_skipSpace (steps depth : Nat) (cs : List Char) :
    readItems (steps + 2) depth (skipSpace cs) = readItems (steps + 2) depth cs := by
  rw [readItems, readItems, readValue_skipSpace]

/-- The spaces in front of the first member do not matter. -/
theorem readMembers_skipSpace (steps depth : Nat) (known : List (String × Json)) (cs : List Char) :
    readMembers (steps + 1) depth known (skipSpace cs) =
      readMembers (steps + 1) depth known cs := by
  rw [readMembers, readMembers, skipSpace_skipSpace]

/-- A value that starts with a digit is a number. -/
theorem readValue_of_isDigit {c : Char} (h : Text.isDigit c = true) (steps depth : Nat)
    (cs : List Char) :
    readValue (steps + 1) depth (c :: cs) =
      (readNumber (c :: cs)).map fun p => (.num p.1, p.2) := by
  have hne : ∀ d, Text.isDigit d = false → c ≠ d := by
    rintro d hd rfl
    rw [h] at hd
    cases hd
  have hspace : isSpace c = false := by
    unfold isSpace
    simp [hne ' ' rfl, hne '\n' rfl, hne '\r' rfl, hne '\t' rfl]
  rw [readValue, skipSpace_cons hspace]
  split
  · next heq => exact absurd (List.cons.inj heq).1 (hne 'n' rfl)
  · next heq => exact absurd (List.cons.inj heq).1 (hne 't' rfl)
  · next heq => exact absurd (List.cons.inj heq).1 (hne 'f' rfl)
  · next heq => exact absurd (List.cons.inj heq).1 (hne '"' rfl)
  · next heq => exact absurd (List.cons.inj heq).1 (hne '[' rfl)
  · next heq => exact absurd (List.cons.inj heq).1 (hne '\x7b' rfl)
  · next heq =>
    obtain ⟨rfl, rfl⟩ := List.cons.inj heq
    exact if_pos (by rw [h, Bool.or_true])
  · next heq => cases heq

/-- A string is read from its quoted text. -/
theorem readValue_quoted (s : String) (steps depth : Nat) (rest : List Char) :
    readValue (steps + 1) depth (quoted s.toList ++ rest) = .ok (.str s, rest) := by
  have htext : quoted s.toList ++ rest = '"' :: (s.toList.flatMap escapeChar ++ '"' :: rest) := by
    rw [quoted, List.cons_append, List.append_assoc, List.singleton_append]
  have hread : readValue (steps + 1) depth ('"' :: (s.toList.flatMap escapeChar ++ '"' :: rest)) =
      (readString (s.toList.flatMap escapeChar ++ '"' :: rest)).map fun p =>
        (.str (String.ofList p.1), p.2) := by
    rw [readValue, skipSpace_cons rfl]
    rfl
  rw [htext, hread, readString_quoted]
  dsimp only [Except.map]
  rw [String.ofList_toList]

/-- An array with items is read by reading its items. -/
theorem readValue_bracket {cs : List Char} (hclose : (skipSpace cs).head? ≠ some ']')
    (steps depth : Nat) :
    readValue (steps + 3) (depth + 1) ('[' :: cs) =
      (readItems (steps + 2) depth cs).map fun p => (.arr p.1, p.2) := by
  rw [readValue, skipSpace_cons rfl, ← readItems_skipSpace]
  split
  · next heq => cases heq
  · next heq => cases heq
  · next heq => cases heq
  · next heq => cases heq
  · next heq =>
    obtain ⟨-, rfl⟩ := List.cons.inj heq
    dsimp only
    split
    · next rest heq =>
      rw [heq] at hclose
      exact absurd rfl hclose
    · rfl
  · next heq => cases heq
  · next hbracket _ heq => exact absurd (List.cons.inj heq).1.symm hbracket
  · next heq => cases heq

/-- An object with members is read by reading its members. -/
theorem readValue_brace {cs : List Char} (hclose : (skipSpace cs).head? ≠ some braceClose)
    (steps depth : Nat) :
    readValue (steps + 2) (depth + 1) (braceOpen :: cs) =
      (readMembers (steps + 1) depth [] cs).map fun p => (.obj p.1, p.2) := by
  rw [readValue, skipSpace_cons rfl, ← readMembers_skipSpace]
  split
  · next heq => cases heq
  · next heq => cases heq
  · next heq => cases heq
  · next heq => cases heq
  · next heq => cases heq
  · next heq =>
    obtain ⟨-, rfl⟩ := List.cons.inj heq
    dsimp only
    split
    · next rest heq =>
      rw [heq] at hclose
      exact absurd rfl hclose
    · rfl
  · next hbrace heq => exact absurd (List.cons.inj heq).1.symm hbrace
  · next heq => cases heq

/-- The text of a value starts with a character that is neither a space nor closes an array. -/
theorem head_indented (level : Nat) (v : Json) (h : v.HasSmallNumbers) :
    ∃ c cs, indented level v = c :: cs ∧ isSpace c = false ∧ c ≠ ']' := by
  cases v with
  | null => exact ⟨_, _, rfl, rfl, by decide⟩
  | bool b => cases b <;> exact ⟨_, _, rfl, rfl, by decide⟩
  | num n =>
    obtain ⟨k, rfl, -⟩ := exists_nat_of_hasSmallNumbers h
    cases hcs : Text.decimal k with
    | nil => exact absurd hcs (Text.decimal_ne_nil k)
    | cons c cs =>
      have hdigit : Text.isDigit c = true :=
        Text.isDigit_of_mem_decimal (by rw [hcs]; exact .head _)
      have hne : ∀ d, Text.isDigit d = false → c ≠ d := by
        rintro d hd rfl
        rw [hdigit] at hd
        cases hd
      refine ⟨c, cs, hcs, ?_, hne ']' rfl⟩
      unfold isSpace
      simp [hne ' ' rfl, hne '\n' rfl, hne '\r' rfl, hne '\t' rfl]
  | str s => exact ⟨_, _, rfl, rfl, by decide⟩
  | arr items =>
    rw [indented]
    cases items with
    | nil => exact ⟨_, _, rfl, rfl, by decide⟩
    | cons v rest => exact ⟨_, _, rfl, rfl, by decide⟩
  | obj members =>
    rw [indented]
    cases members with
    | nil => exact ⟨_, _, rfl, rfl, by decide⟩
    | cons m rest => exact ⟨_, _, rfl, rfl, by decide⟩

/-- What follows the line break in front of the first item does not close the array. -/
theorem head?_items (level : Nat) {items : List Json} (hne : items ≠ [])
    (h : AllHaveSmallNumbers items) (rest : List Char) :
    (skipSpace (indentedItems level items ++ rest)).head? ≠ some ']' := by
  cases items with
  | nil => exact absurd rfl hne
  | cons v more =>
    obtain ⟨c, cs, hcs, hspace, hclose⟩ := head_indented level v h.1
    have hne : (c :: cs).head? ≠ some ']' := fun heq => hclose (Option.some.inj heq)
    cases more with
    | nil =>
      rw [indentedItems, List.append_assoc, skipSpace_newline, hcs, List.append_assoc,
        List.cons_append, skipSpace_cons hspace]
      exact fun heq => hclose (Option.some.inj heq)
    | cons w more =>
      rw [indentedItems, List.append_assoc, skipSpace_newline, hcs, List.append_assoc,
        List.cons_append, skipSpace_cons hspace]
      exact fun heq => hclose (Option.some.inj heq)

/-- What follows the line break in front of the first member does not close the object. -/
theorem head?_members (level : Nat) {members : List (String × Json)} (hne : members ≠ [])
    (rest : List Char) :
    (skipSpace (indentedMembers level members ++ rest)).head? ≠ some braceClose := by
  cases members with
  | nil => exact absurd rfl hne
  | cons m more =>
    obtain ⟨key, v⟩ := m
    cases more with
    | nil =>
      rw [indentedMembers, List.append_assoc, skipSpace_newline, quoted, List.append_assoc,
        List.cons_append, skipSpace_cons rfl]
      exact fun heq => absurd (Option.some.inj heq) (by decide)
    | cons w more =>
      rw [indentedMembers, List.append_assoc, skipSpace_newline, quoted, List.append_assoc,
        List.cons_append, skipSpace_cons rfl]
      exact fun heq => absurd (Option.some.inj heq) (by decide)

/-- After an item and a comma, the other items are read. -/
theorem readItems_comma {steps depth : Nat} {v : Json} {cs more : List Char}
    (h : readValue steps depth cs = .ok (v, ',' :: more)) :
    readItems (steps + 1) depth cs =
      (readItems steps depth more).map fun p => (v :: p.1, p.2) := by
  rw [readItems, h]
  rfl

/-- After an item and the closing bracket, all items are read. -/
theorem readItems_close {steps depth : Nat} {v : Json} {cs rest : List Char} {level : Nat}
    (h : readValue steps depth cs = .ok (v, newline level ++ ']' :: rest)) :
    readItems (steps + 1) depth cs = .ok ([v], rest) := by
  rw [readItems, h]
  dsimp only
  rw [skipSpace_newline]
  rfl

/-- A line break, a name and a colon are read before the value of a member, and what is read of
the value decides how the members go on. -/
theorem readMembers_quoted {steps depth : Nat} (known : List (String × Json)) (key : String)
    (level : Nat) {v : Json} {cs rest : List Char} {r : Except Stop (List (String × Json) × List Char)}
    (h : readValue (steps + 1) depth cs = .ok (v, rest))
    (hcomma : ∀ more, skipSpace rest = ',' :: more →
      readMembers (steps + 1) depth (insertMember key v known) more = r)
    (hclose : ∀ more, skipSpace rest = braceClose :: more → .ok (insertMember key v known, more) = r)
    (hnext : ∃ c more, skipSpace rest = c :: more ∧ (c = ',' ∨ c = braceClose)) :
    readMembers (steps + 2) depth known
      (newline level ++ (quoted key.toList ++ ':' :: ' ' :: cs)) = r := by
  have hspace : readValue (steps + 1) depth (' ' :: cs) = .ok (v, rest) := by
    rw [← h, ← readValue_skipSpace, ← readValue_skipSpace steps depth cs]
    rfl
  have htext : quoted key.toList ++ ':' :: ' ' :: cs =
      '"' :: (key.toList.flatMap escapeChar ++ '"' :: ':' :: ' ' :: cs) := by
    rw [quoted, List.cons_append, List.append_assoc, List.singleton_append]
  rw [readMembers, skipSpace_newline, htext, skipSpace_cons rfl]
  split
  · next heq =>
    obtain ⟨-, rfl⟩ := List.cons.inj heq
    rw [readString_quoted]
    dsimp only
    rw [skipSpace_cons rfl]
    split
    · next heq =>
      obtain ⟨-, rfl⟩ := List.cons.inj heq
      rw [hspace]
      dsimp only
      rw [String.ofList_toList]
      split
      · next more heq => exact hcomma more heq
      · next more heq => exact hclose more heq
      · next _ hno hnone =>
        obtain ⟨c, more, heq, rfl | rfl⟩ := hnext
        · exact absurd heq (hno more)
        · exact absurd heq (hnone more)
    · next hno => exact absurd rfl (hno _)
  · next hno => exact absurd rfl (hno _)

mutual

/-- The text of a value is read as the value, sorted. -/
theorem readValue_indented (v : Json) (hv : v.HasSmallNumbers) (level steps depth : Nat)
    (hdepth : v.height ≤ depth) (hsteps : 2 * (indented level v).length ≤ steps)
    {rest : List Char} (hrest : EndsNumber rest) :
    readValue (steps + 1) depth (indented level v ++ rest) = .ok (v.sorted, rest) := by
  cases v with
  | null => rfl
  | bool b => cases b <;> rfl
  | num n =>
    obtain ⟨k, rfl, hk⟩ := exists_nat_of_hasSmallNumbers hv
    have htext : indented level (.num (.int (Int.ofNat k))) = Text.decimal k := by
      rw [indented]
      rfl
    have hread := readNumber_decimal hk hrest
    rw [htext, sorted]
    · cases hcs : Text.decimal k with
      | nil => exact absurd hcs (Text.decimal_ne_nil k)
      | cons c cs =>
        have hdigit : Text.isDigit c = true :=
          Text.isDigit_of_mem_decimal (by rw [hcs]; exact .head _)
        rw [hcs, List.cons_append] at hread
        rw [List.cons_append, readValue_of_isDigit hdigit, hread]
        rfl
    · simp
    · simp
  | str s =>
    rw [indented, sorted]
    · exact readValue_quoted s steps depth rest
    · simp
    · simp
  | arr items =>
    rw [HasSmallNumbers] at hv
    rw [height] at hdepth
    rw [indented] at hsteps ⊢
    rw [sorted]
    obtain ⟨depth, rfl⟩ : ∃ k, depth = k + 1 := ⟨depth - 1, by omega⟩
    cases items with
    | nil => rfl
    | cons w more =>
      rw [if_neg (by simp)] at hsteps ⊢
      rw [List.length_cons] at hsteps
      obtain ⟨steps, rfl⟩ : ∃ k, steps = k + 2 := ⟨steps - 2, by omega⟩
      have hitems := readItems_indented (w :: more) (List.cons_ne_nil w more) hv (level + 1)
        (steps + 1) depth (by omega) (by omega) rest
      rw [List.cons_append, readValue_bracket
        (head?_items (level + 1) (List.cons_ne_nil w more) hv rest), hitems]
      rfl
  | obj members =>
    rw [HasSmallNumbers] at hv
    rw [height] at hdepth
    rw [indented] at hsteps ⊢
    rw [sorted]
    obtain ⟨depth, rfl⟩ : ∃ k, depth = k + 1 := ⟨depth - 1, by omega⟩
    cases members with
    | nil => rfl
    | cons m more =>
      rw [if_neg (by simp)] at hsteps ⊢
      rw [List.length_cons] at hsteps
      obtain ⟨steps, rfl⟩ : ∃ k, steps = k + 1 := ⟨steps - 1, by omega⟩
      have hmembers := readMembers_indented (m :: more) (List.cons_ne_nil m more) hv (level + 1) []
        steps depth (by omega) (by omega) rest
      rw [List.cons_append, readValue_brace
        (head?_members (level + 1) (List.cons_ne_nil m more) rest), hmembers]
      rfl

/-- The text of items is read as the items, sorted. -/
theorem readItems_indented (items : List Json) (hne : items ≠ []) (hv : AllHaveSmallNumbers items)
    (level steps depth : Nat) (hdepth : heightItems items ≤ depth)
    (hsteps : 2 * (indentedItems level items).length ≤ steps) (rest : List Char) :
    readItems (steps + 1) depth (indentedItems level items ++ rest) =
      .ok (sortedItems items, rest) := by
  cases items with
  | nil => exact absurd rfl hne
  | cons v more =>
    rw [heightItems] at hdepth
    cases more with
    | nil =>
      rw [indentedItems] at hsteps ⊢
      simp only [List.length_append] at hsteps
      obtain ⟨steps, rfl⟩ : ∃ k, steps = k + 1 := ⟨steps - 1, by simp [newline] at hsteps; omega⟩
      have hvalue := readValue_indented v hv.1 level steps depth
        (by omega) (by simp [newline] at hsteps; omega)
        (endsNumber_newline (level - 1) (']' :: rest))
      rw [← readItems_skipSpace, List.append_assoc, skipSpace_newline, readItems_skipSpace,
        List.append_assoc, List.append_assoc, List.singleton_append]
      exact readItems_close hvalue
    | cons w more =>
      rw [indentedItems] at hsteps ⊢
      simp only [List.length_append, List.length_cons] at hsteps
      obtain ⟨steps, rfl⟩ : ∃ k, steps = k + 1 := ⟨steps - 1, by simp [newline] at hsteps; omega⟩
      have hvalue := readValue_indented v hv.1 level steps depth
        (by omega) (by simp [newline] at hsteps; omega)
        (endsNumber_comma (indentedItems level (w :: more) ++ rest))
      have hmore := readItems_indented (w :: more) (List.cons_ne_nil w more) hv.2 level
        steps depth (by omega) (by simp [newline] at hsteps; omega) rest
      rw [← readItems_skipSpace, List.append_assoc, skipSpace_newline, readItems_skipSpace,
        List.append_assoc, List.cons_append, readItems_comma hvalue, hmore]
      rfl

/-- The text of members is read as the members, sorted, put among members known before. -/
theorem readMembers_indented (members : List (String × Json)) (hne : members ≠ [])
    (hv : MembersHaveSmallNumbers members) (level : Nat) (known : List (String × Json))
    (steps depth : Nat) (hdepth : heightMembers members ≤ depth)
    (hsteps : 2 * (indentedMembers level members).length ≤ steps) (rest : List Char) :
    readMembers (steps + 1) depth known (indentedMembers level members ++ rest) =
      .ok (sortedMembers known members, rest) := by
  cases members with
  | nil => exact absurd rfl hne
  | cons m more =>
    obtain ⟨key, v⟩ := m
    rw [heightMembers] at hdepth
    rw [sortedMembers]
    cases more with
    | nil =>
      rw [indentedMembers] at hsteps ⊢
      simp only [List.length_append, List.length_cons] at hsteps
      obtain ⟨steps, rfl⟩ : ∃ k, steps = k + 1 := ⟨steps - 1, by omega⟩
      have hvalue := readValue_indented v hv.1 level steps depth
        (by omega) (by omega) (endsNumber_newline (level - 1) (braceClose :: rest))
      have hskip : skipSpace (newline (level - 1) ++ braceClose :: rest) = braceClose :: rest := by
        rw [skipSpace_newline, skipSpace_cons rfl]
      rw [List.append_assoc, List.append_assoc, List.cons_append, List.cons_append,
        List.append_assoc, List.append_assoc, List.singleton_append]
      refine readMembers_quoted known key level hvalue ?_ ?_
        ⟨braceClose, rest, hskip, .inr rfl⟩
      · intro more heq
        rw [hskip] at heq
        exact absurd (List.cons.inj heq).1 (by decide)
      · intro more heq
        rw [hskip] at heq
        rw [(List.cons.inj heq).2]
        rfl
    | cons w more =>
      rw [indentedMembers] at hsteps ⊢
      simp only [List.length_append, List.length_cons] at hsteps
      obtain ⟨steps, rfl⟩ : ∃ k, steps = k + 1 := ⟨steps - 1, by omega⟩
      have hvalue := readValue_indented v hv.1 level steps depth
        (by omega) (by omega) (endsNumber_comma (indentedMembers level (w :: more) ++ rest))
      have hmore := readMembers_indented (w :: more) (List.cons_ne_nil w more) hv.2 level
        (insertMember key v.sorted known) steps depth (by omega) (by omega) rest
      have hskip : skipSpace (',' :: (indentedMembers level (w :: more) ++ rest)) =
          ',' :: (indentedMembers level (w :: more) ++ rest) := skipSpace_cons rfl _
      rw [List.append_assoc, List.append_assoc, List.cons_append, List.cons_append,
        List.append_assoc, List.cons_append]
      refine readMembers_quoted known key level hvalue ?_ ?_
        ⟨',', _, hskip, .inl rfl⟩
      · intro others heq
        rw [hskip] at heq
        rw [← (List.cons.inj heq).2]
        exact hmore
      · intro others heq
        rw [hskip] at heq
        exact absurd (List.cons.inj heq).1 (by decide)

end

/-- The indented text of a value is read as the value, sorted. -/
theorem parse_pretty {v : Json} (hv : v.HasSmallNumbers) (hdepth : v.height ≤ maxDepth) :
    parse v.pretty = .ok v.sorted := by
  have htext : v.pretty.toList = indented 0 v := String.toList_ofList
  have hends : EndsNumber [] := by
    intro c hc
    cases hc
  have hvalue := readValue_indented v hv 0 (2 * (indented 0 v).length + 1) maxDepth hdepth
    (by omega) hends
  rw [List.append_nil] at hvalue
  have hread : readText (indented 0 v) = .ok v.sorted := by
    unfold readText
    rw [hvalue]
    rfl
  unfold parse
  rw [htext]
  dsimp only
  rw [hread]

end RollupInput.Json
