import RollupInput.Proofs.Decoding.Ending
import RollupInput.Proofs.Report.Records

/-!
# Reading reports back

The report of a decode as comma separated values is read back whatever is in its names, its values and
its error: the heading comes first, then a record for every entry of the result in order, or the one
record of the error. A field is written so that the grammar gives back its content, a record so that it
gives back its fields, and the grammar gives nothing else.
-/

namespace RollupInput.Report

/-- Whether a text has records of strings. -/
def Reads (text : String) (records : List (List String)) : Prop :=
  IsRecords text.toList (records.map fun fields => fields.map String.toList)

/-- A content with its quotes written twice. -/
theorem isEscaped_flatMap (cs : List Char) :
    IsEscaped (cs.flatMap fun c => if c == '"' then ['"', '"'] else [c]) cs := by
  induction cs with
  | nil => exact .nil
  | cons c cs ih =>
    rw [List.flatMap_cons]
    by_cases hc : c = '"'
    · rw [hc]
      exact .quote ih
    · rw [if_neg (by simpa using hc)]
      exact .other hc ih

/-- A field has the content that it is written for. -/
theorem isField_field (cs : List Char) : IsField (field cs) cs := by
  unfold field
  split
  · exact .quoted (isEscaped_flatMap cs)
  · rename_i hplain
    refine .bare fun c hc => ?_
    by_contra hneeds
    exact hplain (List.any_eq_true.mpr ⟨c, hc, by simpa using hneeds⟩)

/-- A text of written records has these records. -/
theorem isRecords_flatMap (rows : List (String × String)) :
    IsRecords (rows.flatMap fun row => record row.1 row.2)
      (rows.map fun row => [row.1.toList, row.2.toList]) := by
  induction rows with
  | nil => exact .nil
  | cons row rows ih =>
    have hline : record row.1 row.2 ++ rows.flatMap (fun row => record row.1 row.2) =
        (field row.1.toList ++ ',' :: field row.2.toList) ++
          (['\n'] ++ rows.flatMap fun row => record row.1 row.2) := by
      simp [record]
    have hfields : IsRecord (field row.1.toList ++ ',' :: field row.2.toList)
        [row.1.toList, row.2.toList] :=
      .more (isField_field _) (.one (isField_field _))
    rw [List.flatMap_cons, List.map_cons, hline]
    exact .more hfields (.inl rfl) ih

/-- Different strings have different characters, also in records. -/
theorem map_toList_inj {records others : List (List String)}
    (h : records.map (fun fields => fields.map String.toList) =
      others.map fun fields => fields.map String.toList) : records = others := by
  have hstrings : Function.Injective String.toList := fun _ _ => String.toList_inj.mp
  exact hstrings.list_map.list_map h

/-- The records of a report are the heading and its rows, and nothing else. -/
theorem reads_csv_iff (d : Decoding) (records : List (List String)) :
    Reads (csv d) records ↔ records = ["name", "value"] :: (rows d).map fun row => [row.1, row.2] := by
  have hwritten : Reads (csv d) (["name", "value"] :: (rows d).map fun row => [row.1, row.2]) := by
    have hrecords := isRecords_flatMap (("name", "value") :: rows d)
    unfold Reads csv
    rw [String.toList_ofList]
    simpa [Function.comp_def] using hrecords
  constructor
  · intro h
    exact map_toList_inj (h.unique hwritten)
  · rintro rfl
    exact hwritten

/-- The report of any decode is read back in one way: if the decode is resolved, as the heading and a
record of the name and the value of every entry, in order; and if it has failed, as the heading and one
record of the error. -/
theorem csv_reads_back [Abi.Memory] (spec : Specification) (payload : List UInt8) :
    ((Decoding.run spec payload).stage = .resolved ∧ (Decoding.run spec payload).error = none ∧
      ∀ records, Reads (csv (Decoding.run spec payload)) records ↔
        records = ["name", "value"] ::
          (Decoding.run spec payload).result.entries.map fun e => [e.1, e.2.display]) ∨
    ∃ e, (Decoding.run spec payload).stage = .errored ∧ (Decoding.run spec payload).error = some e ∧
      ∀ records, Reads (csv (Decoding.run spec payload)) records ↔
        records = [["name", "value"], ["error", e.message]] := by
  have hended := Decoding.hasEnded_run spec payload
  generalize Decoding.run spec payload = d at hended ⊢
  rcases hended.outcome with ⟨hstage, herror⟩ | ⟨hstage, ⟨e, herror⟩, -⟩
  · refine .inl ⟨hstage, herror, fun records => ?_⟩
    simp [reads_csv_iff, rows, herror, Function.comp_def]
  · refine .inr ⟨e, hstage, herror, fun records => ?_⟩
    simp [reads_csv_iff, rows, herror]

end RollupInput.Report
