import RollupInput.Report

/-!
# Comma separated values

A text of records by its grammar: lines of fields between commas, of which a field with a comma, a quote
or a line break in it stands between quotes, and a quote in such a field is written twice. A line ends in
a line feed, with or without a carriage return in front of it, and the last one may lack its end. The
grammar says what a text is; that it is so in one way only comes from a reader, which goes through the
text once and finds whatever records the grammar says there are.
-/

namespace RollupInput.Report

/-! ## The grammar -/

/-- What is written between the quotes of a field and what it stands for: a quote is written twice. -/
inductive IsEscaped : List Char → List Char → Prop where
  /-- Nothing is written. -/
  | nil : IsEscaped [] []
  /-- Two quotes stand for one. -/
  | quote {text content : List Char} (h : IsEscaped text content) :
      IsEscaped ('"' :: '"' :: text) ('"' :: content)
  /-- Any other character stands for itself. -/
  | other {c : Char} {text content : List Char} (hc : c ≠ '"') (h : IsEscaped text content) :
      IsEscaped (c :: text) (c :: content)

/-- A written field and its content. -/
inductive IsField : List Char → List Char → Prop where
  /-- Without quotes there is no comma, quote or line break in it. -/
  | bare {content : List Char} (h : ∀ c ∈ content, needsQuotes c = false) : IsField content content
  /-- With quotes there may be any character. -/
  | quoted {text content : List Char} (h : IsEscaped text content) :
      IsField ('"' :: (text ++ ['"'])) content

/-- A written record, without the end of its line, and its fields. -/
inductive IsRecord : List Char → List (List Char) → Prop where
  /-- There is one field. -/
  | one {text content : List Char} (h : IsField text content) : IsRecord text [content]
  /-- A field comes before a comma and others. -/
  | more {text content rest : List Char} {fields : List (List Char)} (h : IsField text content)
      (hrest : IsRecord rest fields) : IsRecord (text ++ ',' :: rest) (content :: fields)

/-- What may end a line. -/
def IsLineEnd (cs : List Char) : Prop := cs = ['\n'] ∨ cs = ['\r', '\n']

/-- A text and its records. Behind the end of the last line no record is seen. -/
inductive IsRecords : List Char → List (List (List Char)) → Prop where
  /-- There is nothing. -/
  | nil : IsRecords [] []
  /-- The last line has no end. -/
  | last {text : List Char} {fields : List (List Char)} (hne : text ≠ []) (h : IsRecord text fields) :
      IsRecords text [fields]
  /-- A line comes before others. -/
  | more {text lineEnd rest : List Char} {fields : List (List Char)}
      {records : List (List (List Char))} (h : IsRecord text fields) (hend : IsLineEnd lineEnd)
      (hrest : IsRecords rest records) : IsRecords (text ++ (lineEnd ++ rest)) (fields :: records)

/-! ## The reader -/

/-- Where in a field a reader stands. -/
inductive Place where
  /-- In front of its first character. -/
  | start
  /-- In a field without quotes. -/
  | bare
  /-- Between the quotes of a field. -/
  | quoted
  /-- Behind a quote that ends the field, unless another one follows. -/
  | closed
  deriving DecidableEq

/-- What a reader finds from a place on. -/
structure Remainder where
  /-- The rest of the field that it stands in. -/
  field : List Char
  /-- The other fields of the record. -/
  fields : List (List Char)
  /-- The other records. -/
  records : List (List (List Char))
  deriving DecidableEq

namespace Remainder

/-- What is found at the end of a text. -/
def nothing : Remainder := ⟨[], [], []⟩

/-- All records, if the place is in front of a record. -/
def all (r : Remainder) : List (List (List Char)) := (r.field :: r.fields) :: r.records

/-- What is found in front of a text of the field. -/
def within (cs : List Char) (r : Remainder) : Remainder := { r with field := cs ++ r.field }

/-- No text of the field changes nothing. -/
@[simp] theorem map_within_nil (found : Option Remainder) : found.map (within []) = found := by
  cases found <;> rfl

/-- Texts of the field stand one after the other. -/
@[simp] theorem map_within_map_within (cs ds : List Char) (found : Option Remainder) :
    (found.map (within ds)).map (within cs) = found.map (within (cs ++ ds)) := by
  cases found <;> simp [within]

/-- What is found in front of a comma. -/
def beforeComma (r : Remainder) : Remainder := ⟨[], r.field :: r.fields, r.records⟩

end Remainder

/-- What is found in front of the end of a line and further records. -/
def beforeRecords (records : List (List (List Char))) : Remainder := ⟨[], [], records⟩

/-- Read from a place on. Nothing comes of a quote in a field without quotes, of a character behind the
closing quote of a field, of a carriage return without a line feed and of a missing quote. -/
def readFrom (place : Place) : List Char → Option Remainder
  | [] => if place = .quoted then none else some .nothing
  | c :: cs =>
    if place = .quoted then
      if c = '"' then readFrom .closed cs else (readFrom .quoted cs).map (.within [c])
    else if c = ',' then (readFrom .start cs).map .beforeComma
    else if c = '\n' then
      if cs = [] then some .nothing else (readFrom .start cs).map fun r => beforeRecords r.all
    else if c = '\r' then if cs.head? = some '\n' then readFrom .closed cs else none
    else if c = '"' then
      match place with
      | .start => readFrom .quoted cs
      | .closed => (readFrom .quoted cs).map (.within ['"'])
      | _ => none
    else if place = .closed then none
    else (readFrom .bare cs).map (.within [c])

/-- Read the records of a text. -/
def readRecords (cs : List Char) : Option (List (List (List Char))) :=
  if cs = [] then some [] else (readFrom .start cs).map Remainder.all

/-! ## What the grammar says is found -/

variable {place : Place} {text content rest lineEnd : List Char} {fields : List (List Char)}
  {records : List (List (List Char))}

/-- What may come behind a field: a comma, the end of a line, or nothing. -/
def EndsField (cs : List Char) : Prop := ∀ c ∈ cs.head?, c = ',' ∨ c = '\n' ∨ c = '\r'

section

-- One character at a time, the reader is unfolded; behind this section it is not.
attribute [local simp] readFrom

/-- Behind a comma the next field is read. -/
theorem readFrom_comma (hplace : place ≠ .quoted) (cs : List Char) :
    readFrom place (',' :: cs) = (readFrom .start cs).map .beforeComma := by
  simp [hplace]

/-- Behind the end of a line the further records are read. -/
theorem readFrom_lineEnd (hplace : place ≠ .quoted) (hend : IsLineEnd lineEnd) (cs : List Char) :
    readFrom place (lineEnd ++ cs) = (readRecords cs).map beforeRecords := by
  have hfeed (place : Place) (hplace : place ≠ .quoted) :
      readFrom place ('\n' :: cs) = (readRecords cs).map beforeRecords := by
    by_cases hcs : cs = []
    · simp [readRecords, hplace, hcs, Remainder.nothing, beforeRecords]
    · simp [readRecords, hplace, hcs, Function.comp_def]
  rcases hend with rfl | rfl
  · exact hfeed place hplace
  · have hreturn : readFrom place ('\r' :: '\n' :: cs) = readFrom .closed ('\n' :: cs) := by
      simp [hplace]
    rw [List.cons_append, List.singleton_append, hreturn, hfeed .closed (by decide)]

/-- Behind a field it does not matter how the field was written. -/
theorem readFrom_of_endsField (hplace : place ≠ .quoted) (hrest : EndsField rest) :
    readFrom place rest = readFrom .closed rest := by
  cases rest with
  | nil => simp [hplace]
  | cons c cs =>
    have hc : c = ',' ∨ c = '\n' ∨ c = '\r' := hrest c rfl
    rcases hc with rfl | rfl | rfl
    · simp [hplace]
    · simp [hplace]
    · simp [hplace]

/-- A quote in front of a field opens it. -/
theorem readFrom_opening (cs : List Char) : readFrom .start ('"' :: cs) = readFrom .quoted cs := by
  simp

/-- Between quotes, one quote closes the field. -/
theorem readFrom_closing (cs : List Char) : readFrom .quoted ('"' :: cs) = readFrom .closed cs := by
  simp

/-- Between quotes, two quotes stand for one. -/
theorem readFrom_doubled (cs : List Char) :
    readFrom .quoted ('"' :: '"' :: cs) = (readFrom .quoted cs).map (.within ['"']) := by
  rw [readFrom_closing]
  simp

/-- Between quotes, any other character stands for itself. -/
theorem readFrom_quoted_cons {c : Char} (hc : c ≠ '"') (cs : List Char) :
    readFrom .quoted (c :: cs) = (readFrom .quoted cs).map (.within [c]) := by
  simp [hc]

/-- Without quotes, a character that needs none stands for itself. -/
theorem readFrom_bare_cons {c : Char} (hplace : place = .start ∨ place = .bare)
    (hc : needsQuotes c = false) (cs : List Char) :
    readFrom place (c :: cs) = (readFrom .bare cs).map (.within [c]) := by
  simp only [needsQuotes, Bool.or_eq_false_iff, beq_eq_false_iff_ne] at hc
  rcases hplace with rfl | rfl <;> simp [hc]

end

/-- Up to the closing quote, the content between quotes is found. -/
theorem readFrom_escaped (h : IsEscaped text content) (rest : List Char) :
    readFrom .quoted (text ++ '"' :: rest) = (readFrom .closed rest).map (.within content) := by
  induction h with
  | nil => rw [List.nil_append, readFrom_closing, Remainder.map_within_nil]
  | quote _ ih =>
    rw [List.cons_append, List.cons_append, readFrom_doubled, ih, Remainder.map_within_map_within,
      List.singleton_append]
  | other hc _ ih =>
    rw [List.cons_append, readFrom_quoted_cons hc, ih, Remainder.map_within_map_within,
      List.singleton_append]

/-- In a field without quotes, its content is found. -/
theorem readFrom_bare (h : ∀ c ∈ content, needsQuotes c = false) (rest : List Char) :
    readFrom .bare (content ++ rest) = (readFrom .bare rest).map (.within content) := by
  induction content with
  | nil => rw [List.nil_append, Remainder.map_within_nil]
  | cons c content ih =>
    obtain ⟨hc, hcontent⟩ := List.forall_mem_cons.mp h
    rw [List.cons_append, readFrom_bare_cons (.inr rfl) hc, ih hcontent,
      Remainder.map_within_map_within, List.singleton_append]

/-- The content of a field is found, however it is written. -/
theorem readFrom_field (h : IsField text content) (hrest : EndsField rest) :
    readFrom .start (text ++ rest) = (readFrom .closed rest).map (.within content) := by
  cases h with
  | bare hplain =>
    cases text with
    | nil =>
      rw [List.nil_append, readFrom_of_endsField (by decide) hrest, Remainder.map_within_nil]
    | cons c text =>
      obtain ⟨hc, htext⟩ := List.forall_mem_cons.mp hplain
      rw [List.cons_append, readFrom_bare_cons (.inl rfl) hc, readFrom_bare htext,
        readFrom_of_endsField (by decide) hrest, Remainder.map_within_map_within,
        List.singleton_append]
  | quoted hescaped =>
    rw [List.cons_append, List.append_assoc, List.singleton_append, readFrom_opening,
      readFrom_escaped hescaped]

/-- The fields of a record are found in front of the records behind it. -/
theorem readFrom_record (h : IsRecord text fields)
    (hrest : ∀ c ∈ rest.head?, c = '\n' ∨ c = '\r')
    (hread : readFrom .closed rest = some (beforeRecords records)) :
    (readFrom .start (text ++ rest)).map Remainder.all = some (fields :: records) := by
  induction h with
  | one hfield =>
    rw [readFrom_field hfield fun c hc => .inr (hrest c hc), hread]
    simp [Remainder.within, Remainder.all, beforeRecords]
  | @more text content later fields hfield _ ih =>
    obtain ⟨r, hr, hall⟩ := Option.map_eq_some_iff.mp ih
    have hcomma : EndsField (',' :: (later ++ rest)) := by
      intro c hc
      exact .inl (Option.some.inj hc).symm
    rw [List.append_assoc, List.cons_append, readFrom_field hfield hcomma,
      readFrom_comma (by decide), hr]
    simpa [Remainder.within, Remainder.beforeComma, Remainder.all] using hall

/-- The records of a text are found. -/
theorem readRecords_of_isRecords (h : IsRecords text records) : readRecords text = some records := by
  induction h with
  | nil => rfl
  | @last text fields hne hrecord =>
    have hread : (readFrom .start (text ++ [])).map Remainder.all = some [fields] :=
      readFrom_record hrecord (by simp) rfl
    rw [List.append_nil] at hread
    rw [readRecords, if_neg hne, hread]
  | @more text lineEnd rest fields records hrecord hend _ ih =>
    have hne : text ++ (lineEnd ++ rest) ≠ [] := by
      rcases hend with rfl | rfl <;> simp
    have hhead : ∀ c ∈ (lineEnd ++ rest).head?, c = '\n' ∨ c = '\r' := by
      rcases hend with rfl | rfl <;> simp
    have hread : readFrom .closed (lineEnd ++ rest) = some (beforeRecords records) := by
      rw [readFrom_lineEnd (by decide) hend, ih, Option.map_some]
    rw [readRecords, if_neg hne, readFrom_record hrecord hhead hread]

example : readRecords "name,value\r\nnote,\"a \"\"b\"\",\"".toList =
    some [["name".toList, "value".toList], ["note".toList, "a \"b\",".toList]] := by
  decide

/-- A text has the records of at most one reading. -/
theorem IsRecords.unique {others : List (List (List Char))} (h : IsRecords text records)
    (hothers : IsRecords text others) : records = others := by
  have hread := readRecords_of_isRecords h
  rw [readRecords_of_isRecords hothers] at hread
  exact (Option.some.inj hread).symm

end RollupInput.Report
