import RollupInput.Report

/-!
# Arguments of the command line

The program has three commands. Options stand before or behind the name of the command; those
that belong to all commands may stand on either side of it, and the ones behind it count more. An
argument that starts with a minus is never taken as a value, unless two minus signs alone stand
somewhere in front of it.
-/

namespace RollupInput.CommandLine

/-- What an option takes. -/
inductive Slot where
  /-- Nothing. -/
  | flag
  /-- A text. -/
  | text
  /-- A path, which is not empty. -/
  | path
  /-- A path, which is not empty; the option may be repeated. -/
  | paths
  /-- The name of a format. -/
  | format
  deriving DecidableEq, Repr

/-- What the program is asked for in place of running a command. -/
inductive Notice where
  /-- How it is used. -/
  | help
  /-- Its version. -/
  | version
  /-- How it is used, since the arguments are wrong. -/
  | usage
  deriving DecidableEq, Repr

/-- The arguments of one level, as they came. -/
structure Given where
  /-- The options with their values; a flag has an empty one. -/
  options : List (String × String)
  /-- The arguments that are no options. -/
  positionals : List String
  deriving DecidableEq, Repr

namespace Given

/-- No arguments. -/
def empty : Given := ⟨[], []⟩

/-- The value of an option that is given once. -/
def value? (g : Given) (name : String) : Option String := g.options.lookup name

/-- All values of an option, in order. -/
def values (g : Given) (name : String) : List String :=
  (g.options.filter (·.1 == name)).map (·.2)

/-- Whether an option is given. -/
def has (g : Given) (name : String) : Bool := (g.value? name).isSome

/-- Add an option. Only an option for several paths may be repeated, a path is not empty, and a
format has a known name. -/
def add (g : Given) (name : String) (slot : Slot) (value : String) : Except Notice Given :=
  let repeated := g.has name && slot != .paths
  let wrong : Bool :=
    match slot with
    | .flag | .text => false
    | .path | .paths => value.isEmpty
    | .format => (Format.choices.lookup value).isNone
  if repeated || wrong then .error .usage
  else .ok { g with options := g.options ++ [(name, value)] }

end Given

/-- The options that all commands have. -/
def commonOptions : List (String × Slot) :=
  [("config", .path), ("specs", .paths), ("no-system", .flag)]

/-- The text before the first equals sign, and the text after it if there is one. -/
def splitAtEquals (cs : List Char) : String × Option String :=
  match cs.dropWhile (· != '=') with
  | [] => (String.ofList cs, none)
  | _ :: value => (String.ofList (cs.takeWhile (· != '=')), some (String.ofList value))

/-- An argument that looks like an option. -/
def looksLikeOption (argument : String) : Bool :=
  match argument.toList with
  | '-' :: _ :: _ => true
  | _ => false

/-- A part of the command line: what stands in front of the name of the command, or behind it. -/
structure Level where
  /-- The options of the level. -/
  options : List (String × Slot)
  /-- Whether the version can be asked for. -/
  hasVersion : Bool
  /-- How many arguments that are no options the level takes. -/
  positionals : Nat
  /-- Whether the first argument that is no option begins another level. -/
  hasCommands : Bool

/-- What an option in short form asks for. -/
def Level.short (level : Level) (c : Char) : Notice :=
  if c == 'h' then .help
  else if c == 'V' && level.hasVersion then .version
  else .usage

/-- Take an argument that is no option. -/
def Level.addPositional (level : Level) (g : Given) (argument : String) : Except Notice Given :=
  if g.positionals.length < level.positionals then
    .ok { g with positionals := g.positionals ++ [argument] }
  else .error .usage

/-- Read the arguments of a level: what was given, and the arguments that another level begins
with. -/
def Level.read (level : Level) (g : Given) : List String → Except Notice (Given × List String)
  | [] => .ok (g, [])
  | argument :: rest =>
    match argument.toList with
    | ['-', '-'] => (rest.foldlM level.addPositional g).map fun g => (g, [])
    | '-' :: '-' :: name =>
      let option := splitAtEquals name
      match level.options.lookup option.1, option.2, rest with
      | some .flag, none, rest =>
        match g.add option.1 .flag "" with
        | .error e => .error e
        | .ok g => level.read g rest
      | some .flag, some _, _ => .error .usage
      | some slot, some value, rest =>
        match g.add option.1 slot value with
        | .error e => .error e
        | .ok g => level.read g rest
      | some _, none, [] => .error .usage
      | some slot, none, value :: rest =>
        if looksLikeOption value then .error .usage
        else
          match g.add option.1 slot value with
          | .error e => .error e
          | .ok g => level.read g rest
      | none, none, _ =>
        .error (if option.1 == "help" then .help
          else if option.1 == "version" && level.hasVersion then .version
          else .usage)
      | none, some _, _ => .error .usage
    | '-' :: c :: _ => .error (level.short c)
    | _ =>
      if level.hasCommands then .ok (g, argument :: rest)
      else
        match level.addPositional g argument with
        | .error e => .error e
        | .ok g => level.read g rest

/-- A command with its own arguments. -/
inductive Command where
  /-- Decode a payload by one specification, which a file or the catalog holds. -/
  | decode (spec payload : String) (format : Option Format) (output : Option String)
  /-- Find the specification for an input, and decode its payload if there is one. -/
  | find (input : String) (payload : Option String) (format : Option Format)
    (output : Option String)
  /-- List the catalog, or write it into a file. -/
  | list (target : Option String)
  deriving DecidableEq, Repr

/-- A command with the arguments that all commands have. -/
structure Invocation where
  /-- The path of the configuration. -/
  config : Option String
  /-- Where specifications are looked for first. -/
  specPaths : List String
  /-- Whether the built-in specifications stay out of the catalog. -/
  withoutBuiltIn : Bool
  /-- The command. -/
  command : Command
  deriving DecidableEq, Repr

/-- The level in front of the command's name. -/
def outerLevel : Level := ⟨commonOptions, true, 0, true⟩

/-- The level behind the name of a command. -/
def innerLevel (options : List (String × Slot)) (positionals : Nat) : Level :=
  ⟨options ++ commonOptions, false, positionals, false⟩

/-- The format that is given. -/
def formatOf (g : Given) : Option Format :=
  (g.value? "format").bind fun name => Format.choices.lookup name

/-- The names of the commands. -/
def commandNames : List String := ["decode", "match", "specs", "help"]

/-- What the words behind the command for help ask for: nothing but the name of one command may
stand there. -/
def helpOn : List String → Notice
  | [] => .help
  | [name] => if commandNames.contains name then .help else .usage
  | _ => .usage

/-- Read a command and the arguments behind its name. -/
def readCommand (name : String) (arguments : List String) : Except Notice (Given × Command) := do
  if name == "decode" then
    let level := innerLevel [("spec", .text), ("format", .format), ("output", .path)] 1
    let (g, _) ← level.read .empty arguments
    match g.value? "spec", g.positionals with
    | some spec, [payload] => return (g, .decode spec payload (formatOf g) (g.value? "output"))
    | _, _ => throw .usage
  else if name == "match" then
    let level :=
      innerLevel [("input", .text), ("payload", .text), ("format", .format), ("output", .path)] 0
    let (g, _) ← level.read .empty arguments
    match g.value? "input" with
    | some input =>
      return (g, .find input (g.value? "payload") (formatOf g) (g.value? "output"))
    | none => throw .usage
  else if name == "specs" then
    let level := innerLevel [("export", .path)] 0
    let (g, _) ← level.read .empty arguments
    return (g, .list (g.value? "export"))
  else if name == "help" then throw (helpOn arguments)
  else throw .usage

/-- Read all arguments of the program. -/
def parse (arguments : List String) : Except Notice Invocation := do
  let (outer, rest) ← outerLevel.read .empty arguments
  match rest with
  | [] => throw .usage
  | name :: rest =>
    let (inner, command) ← readCommand name rest
    let specs := inner.values "specs"
    return {
      config := (inner.value? "config").or (outer.value? "config")
      specPaths := if specs.isEmpty then outer.values "specs" else specs
      withoutBuiltIn := inner.has "no-system" || outer.has "no-system"
      command := command }

end RollupInput.CommandLine
