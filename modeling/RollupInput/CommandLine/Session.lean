import RollupInput.Calendar
import RollupInput.Catalog
import RollupInput.CommandLine.Arguments
import RollupInput.Config
import RollupInput.Decoding.Run
import RollupInput.Matching

/-!
# Running a command

A command is answered as data from its arguments, the environment and what paths lead to. The
answer is a text to print, a file to write, or a failure; carrying it out is left to the caller.
-/

namespace RollupInput.CommandLine

/-- The answer to a command. -/
inductive Reply where
  /-- Print a text. -/
  | print (text : String)
  /-- Write a file, then print a text. -/
  | save (path content confirmation : String)
  /-- Fail with a message and its cause. -/
  | failure (message : String) (cause : Option String)
  deriving DecidableEq, Repr

/-- A text with its lines moved to the right. -/
def indentLines (cs : List Char) : List Char :=
  cs.flatMap fun c => if c == '\n' then "\n    ".toList else [c]

/-- What is printed for a failure. -/
def failureText (message : String) (cause : Option String) : String :=
  match cause with
  | none => "Error: " ++ message ++ "\n"
  | some cause =>
    let lines := String.ofList (indentLines cause.toList)
    "Error: " ++ message ++ "\n\nCaused by:\n    " ++ lines ++ "\n"

/-- The failure to write a file. -/
def writeFailure (path : String) : String := "write " ++ path

/-- The name and version of the program. -/
def versionText : String := "specdec 0.1.0\n"

/-- How the program is used. -/
def helpText : String :=
  "specdec: decode rollup input payloads with user-authored specifications\n\n" ++
    "Usage: specdec [OPTIONS] <COMMAND>\n\n" ++
    "Commands:\n" ++
    "  decode  Decode a payload with one specification\n" ++
    "  match   Find the specification for an input, decoding its payload if given\n" ++
    "  specs   List the catalog, or export it as one JSON file\n" ++
    "  help    Print this message or the help of the given subcommand(s)\n\n" ++
    "Options:\n" ++
    "      --config <CONFIG>     Config file (default: $SPECDEC_CONFIG or " ++
    "~/.config/specdec/config.toml)\n" ++
    "      --specs <SPEC_PATHS>  Extra specification files or directories, searched before " ++
    "configured ones\n" ++
    "      --no-system           Leave out the built-in system specifications\n" ++
    "  -h, --help                Print help\n" ++
    "  -V, --version             Print version\n"

/-- The line that describes a specification in a listing. -/
def listingLine (s : Specification) : String :=
  let column (width : Nat) (text : String) : String :=
    String.ofList (Report.padRight width text.toList)
  let created := (Calendar.dateText? s.timestamp).getD "-"
  let predicates := (s.conditionals.getD []).length
  column 28 (s.id.getD "-") ++ " " ++ column 46 s.name ++ " " ++ column 10 s.mode.name ++ " v" ++
    column 3 s!"{s.version}" ++ s!" {created} ({predicates} predicates)"

/-- The settings for an invocation. -/
def configFor (env : Environment) (disk : Disk) (invocation : Invocation) : Config :=
  Config.parse ((invocation.config.or (Config.path? env)).bind disk.text?)

/-- The paths at which specifications are looked for. -/
def rootsFor (env : Environment) (config : Config) (invocation : Invocation) : List String :=
  invocation.specPaths ++ config.roots env.home

/-- The catalog for an invocation. -/
def catalogFor (env : Environment) (disk : Disk) (config : Config) (invocation : Invocation) :
    Catalog :=
  let scanned := Catalog.scanAll disk (rootsFor env config invocation)
  if config.includeBuiltIn && !invocation.withoutBuiltIn then scanned.withBuiltIn else scanned

/-- The specification that a key stands for: the one that a file holds, else the one of the
catalog, else a built-in one, which need not be in the catalog. -/
def specFor (disk : Disk) (catalog : Catalog) (key : String) : Except Reply Specification :=
  match disk.file? key with
  | some content =>
    match Catalog.parseFile content with
    | .error .bytes => .error (.failure ("read " ++ key) (some FileTree.textFault))
    | .error (.text cause) => .error (.failure cause.message none)
    | .error (.item index cause) =>
      .error (.failure (CatalogFault.item index cause).context (some cause.message))
    | .ok [spec] => .ok spec
    | .ok specs =>
      .error (.failure (s!"{key} holds {specs.length} specifications; " ++
        "load it with --specs and pick one by id or name") none)
  | none =>
    match (catalog.get? key).or (Portals.find? key) with
    | some spec => .ok spec
    | none => .error (.failure s!"no specification with id or name \"{key}\"" none)

/-- The input that an argument stands for: JSON itself, or a path to it. -/
def readInput (disk : Disk) (argument : String) : Except Reply Json := do
  let trimmed := Text.trimmed argument
  let content ←
    if trimmed.toList.head? == some '\x7b' then Except.ok trimmed
    else
      match disk.find trimmed with
      | .ok (.file content) | .ok (.device content) =>
        match FileTree.text? content with
        | some text => Except.ok text
        | none => Except.error (Reply.failure ("read " ++ trimmed) (some FileTree.textFault))
      | .ok (.directory _) =>
        Except.error (Reply.failure ("read " ++ trimmed) (some "Is a directory (os error 21)"))
      | .error e => Except.error (Reply.failure ("read " ++ trimmed) (some e.message))
  match Json.parse content with
  | .ok v => return v
  | .error e => throw (.failure "parse input JSON" (some e.message))

/-- Read a payload. -/
def readPayload (text : String) : Except Reply (List UInt8) :=
  (Payload.parse text).mapError fun e => .failure e.message none

/-- Give out the report of a decode: into a file, or as a text whose last line is complete. -/
def replyWith (d : Decoding) (format : Format) (output : Option String) : Reply :=
  let report := Report.render d format
  match output with
  | some path => .save path report ""
  | none => .print (if format == .json then report ++ "\n" else report)

/-- Answer a request to decode a payload. -/
def runDecode [Abi.Memory]
    (disk : Disk) (config : Config) (catalog : Catalog) (key payload : String)
    (format : Option Format) (output : Option String) : Except Reply Reply := do
  let spec ← specFor disk catalog key
  let bytes ← readPayload payload
  return replyWith (Decoding.run spec bytes) (format.getD config.output) output

/-- The payload that an input brings with itself. -/
def ownPayload? (input : Json) : Option String :=
  match input.member? "payload" with
  | some (.str payload) => some payload
  | _ => none

/-- Answer a request to find the specification for an input. -/
def runFind [Abi.Memory] (disk : Disk) (config : Config) (catalog : Catalog) (argument : String)
    (payload : Option String) (format : Option Format) (output : Option String) :
    Except Reply Reply := do
  let raw ← readInput disk argument
  let input ←
    (KnownInput.ofJson raw).mapError fun e => Reply.failure "parse match input" (some e.message)
  match Specification.choose? (some input) catalog.specs with
  | none => return .print "No specification matches this input.\n"
  | some spec =>
    match payload.or (ownPayload? raw) with
    | none => return .print (listingLine spec ++ "\n")
    | some payload =>
      let bytes ← readPayload payload
      return replyWith (Decoding.run spec bytes) (format.getD config.output) output

/-- Answer a request to list or to write the catalog. -/
def runList (catalog : Catalog) (milliseconds : Nat) (target : Option String) : Reply :=
  let count := catalog.specs.length
  match target with
  | some path =>
    .save path (Catalog.exportText catalog.specs) s!"Exported {count} specifications to {path}\n"
  | none =>
    let lines := catalog.specs.map fun s => listingLine s ++ "\n"
    let skipped := catalog.errors.length
    .print (Text.joinWith "" lines ++ s!"\n{count} specifications ({catalog.scannedFiles} files " ++
      s!"scanned in {milliseconds} ms, {skipped} skipped)\n")

/-- Answer an invocation. -/
def run [Abi.Memory]
    (env : Environment) (disk : Disk) (milliseconds : Nat) (invocation : Invocation) : Reply :=
  let config := configFor env disk invocation
  let catalog := catalogFor env disk config invocation
  let answer : Except Reply Reply :=
    match invocation.command with
    | .decode key payload format output =>
      runDecode disk config catalog key payload format output
    | .find input payload format output =>
      runFind disk config catalog input payload format output
    | .list target => .ok (runList catalog milliseconds target)
  match answer with
  | .ok reply => reply
  | .error reply => reply

/-- Commands are run in the usual memory. -/
instance usualMemory : Abi.Memory := .usual

end RollupInput.CommandLine
