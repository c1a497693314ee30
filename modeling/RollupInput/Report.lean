import RollupInput.Decoding

/-!
# Reports

A decode is shown in three formats: as JSON for tools, as records of comma separated values, and
as aligned lines for a terminal. Each shows the result, or the error in its place.
-/

namespace RollupInput

/-- A format of reports. -/
inductive Format where
  /-- An indented JSON object. -/
  | json
  /-- Records of a name and a value. -/
  | csv
  /-- Aligned lines. -/
  | text
  deriving DecidableEq, Repr

/-- The written names of the formats. -/
def Format.choices : List (String × Format) := [("json", .json), ("csv", .csv), ("text", .text)]

/-- The written name. -/
def Format.name : Format → String
  | .json => "json"
  | .csv => "csv"
  | .text => "text"

namespace Report

/-- The report as a JSON object. -/
def object (d : Decoding) : Json :=
  Json.object [("specification", some (.str d.spec.name)),
    ("specificationId", d.spec.id.map .str), ("mode", some (.str d.spec.mode.name)),
    ("stage", some (.str d.stage.text)), ("input", some (.str (Text.Hex.ofBytes d.payload))),
    ("result", if d.hasFailed then none else some d.result.json),
    ("error", d.error.map fun e => .obj [("message", .str e.message)])]

/-- A character for which a field is put between quotes. -/
def needsQuotes (c : Char) : Bool := c == ',' || c == '"' || c == '\n' || c == '\r'

/-- A field of a record. Between quotes a quote is written twice. -/
def field (cs : List Char) : List Char :=
  if cs.any needsQuotes then
    '"' :: (cs.flatMap fun c => if c == '"' then ['"', '"'] else [c]) ++ ['"']
  else cs

/-- A record of two fields with its line end. -/
def record (name value : String) : List Char :=
  field name.toList ++ ',' :: (field value.toList ++ ['\n'])

/-- The records of a report, after their heading. -/
def rows (d : Decoding) : List (String × String) :=
  match d.error with
  | some e => [("error", e.message)]
  | none => d.result.entries.map fun entry => (entry.1, entry.2.display)

/-- The report as comma separated values. -/
def csv (d : Decoding) : String :=
  String.ofList ((("name", "value") :: rows d).flatMap fun row => record row.1 row.2)

/-- A text with spaces behind it up to a number of characters. -/
def padRight (width : Nat) (cs : List Char) : List Char :=
  cs ++ List.replicate (width - cs.length) ' '

/-- The number of bytes of the longest name. -/
def nameWidth (entries : List (String × Abi.Value)) : Nat :=
  entries.foldl (fun width entry => max width (Text.Utf8.size entry.1.toList)) 0

/-- The report as lines for a terminal. -/
def lines (d : Decoding) : String :=
  let heading := s!"{d.spec.name} ({d.spec.mode.name})\n\n"
  match d.error with
  | some e => heading ++ e.message ++ "\n"
  | none =>
    let width := nameWidth d.result.entries
    let line (entry : String × Abi.Value) : List Char :=
      padRight width entry.1.toList ++ ' ' :: ' ' :: (entry.2.display.toList ++ ['\n'])
    heading ++ String.ofList (d.result.entries.flatMap line)

/-- The report in a format. -/
def render (d : Decoding) : Format → String
  | .json => (object d).pretty
  | .csv => csv d
  | .text => lines d

end Report

end RollupInput
