import RollupInput.FilePath
import RollupInput.Report
import RollupInput.Toml.Reader

/-!
# Configuration

Settings are read from a TOML document. A document that is missing or wrong in any way counts as
empty.
-/

namespace RollupInput

/-- The variables of the environment that the program looks at. -/
structure Environment where
  /-- The path of the configuration. -/
  configFile : Option String
  /-- The directory of all configurations. -/
  configHome : Option String
  /-- The home directory. -/
  home : Option String
  deriving DecidableEq, Repr

/-- The settings of the program. -/
structure Config where
  /-- What is logged. -/
  logFilter : Option String
  /-- Whether the built-in specifications are in the catalog. -/
  includeBuiltIn : Bool
  /-- The files and directories that hold specifications. -/
  specPaths : List String
  /-- The format of reports. -/
  output : Format
  deriving DecidableEq, Repr

namespace Config

/-- The settings without a configuration. -/
def standard : Config := ⟨none, true, [], .json⟩

/-- A string. -/
def asString? : Toml → Option String
  | .string s => some s
  | _ => none

/-- A truth value. -/
def asBoolean? : Toml → Option Bool
  | .boolean b => some b
  | _ => none

/-- An array of strings. -/
def asStrings? : Toml → Option (List String)
  | .array items => items.mapM asString?
  | _ => none

/-- A format: its name, or a table of that one key over nothing. -/
def asFormat? : Toml → Option Format
  | .string s => Format.choices.lookup s
  | .table [(name, .table [])] => Format.choices.lookup name
  | .table [(name, .array [])] => Format.choices.lookup name
  | _ => none

/-- The setting of a key, or a default where it is absent. Nothing comes of a wrong setting. -/
def setting {α : Type} (key : String) (default : α) (read : Toml → Option α)
    (members : List (String × Toml)) : Option α :=
  match members.lookup key with
  | none => some default
  | some v => read v

/-- The settings of a table. Unknown keys are ignored. -/
def ofTable? (members : List (String × Toml)) : Option Config := do
  let logFilter ← setting "log_filter" none (fun v => (asString? v).map some) members
  let includeBuiltIn ← setting "include_system_specs" true asBoolean? members
  let specPaths ← setting "spec_paths" [] asStrings? members
  let output ← setting "output" .json asFormat? members
  return ⟨logFilter, includeBuiltIn, specPaths, output⟩

/-- The settings of a document. -/
def parse (document : Option String) : Config :=
  ((document.bind Toml.parse?).bind ofTable?).getD standard

/-- A path with the home directory in place of a tilde in front. -/
def underHome (home : Option String) (path : String) : String :=
  match Text.after? ['~', '/'] path.toList, home with
  | some rest, some home => FilePath.join home (String.ofList rest)
  | _, _ => path

/-- The paths at which specifications are looked for. Blank ones are left out. -/
def roots (config : Config) (home : Option String) : List String :=
  (config.specPaths.filterMap Text.nonBlank?).map (underHome home)

/-- Where the configuration is, as the environment says it. -/
def path? (env : Environment) : Option String :=
  match env.configFile, env.configHome, env.home with
  | some path, _, _ => some path
  | none, some base, _ => some (FilePath.join (FilePath.join base "specdec") "config.toml")
  | none, none, some home =>
    some (FilePath.join (FilePath.join (FilePath.join home ".config") "specdec") "config.toml")
  | none, none, none => none

end Config

end RollupInput
