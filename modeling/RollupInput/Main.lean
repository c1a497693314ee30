import RollupInput.CommandLine.Session

/-!
# The program

The outer layer: it reads the environment and the files that a command can look at, and carries
out the answer.
-/

namespace RollupInput.Program

open CommandLine

/-- The tree of files below an entry of the file system, or why there is none. -/
partial def loadTree (entry : IO.FS.DirEntry) : IO (Except PathFault FileTree) := do
  try
    match (← entry.root.metadata).type with
    | .dir =>
      let mut entries : List (String × FileTree) := []
      for inner in ← entry.root.readDir do
        if let .ok tree ← loadTree { root := inner.path, fileName := "" } then
          entries := FileTree.insertEntry inner.fileName tree entries
      return .ok (.directory entries)
    | .file => return .ok (.file (← IO.FS.readBinFile entry.root).toList)
    | _ => return .ok (.device [])
  catch _ => return .error .notFound

/-- What a path leads to, without what is below it. Devices are only read if `readsDevice` says
so. -/
def loadEntry (readsDevice : Bool) (path : String) : IO (Except PathFault FileTree) := do
  let entry : IO.FS.DirEntry := { root := path, fileName := "" }
  try
    match (← entry.root.metadata).type with
    | .dir => return .ok (.directory [])
    | .file => return .ok (.file (← IO.FS.readBinFile path).toList)
    | _ =>
      if readsDevice then return .ok (.device (← IO.FS.readBinFile path).toList)
      else return .ok (.device [])
  catch _ => return .error .notFound

/-- The files that were loaded, as something to look paths up in. -/
def diskOf (loaded : List (String × Except PathFault FileTree)) : Disk :=
  ⟨fun path => (loaded.lookup path).getD (.error .notFound)⟩

/-- What the argument of a command may lead to, under its path. -/
def loadArgument : Command → IO (List (String × Except PathFault FileTree))
  | .decode key _ _ _ => return [(key, ← loadEntry false key)]
  | .find argument _ _ _ =>
    let path := Text.trimmed argument
    return [(path, ← loadEntry true path)]
  | .list _ => return []

/-- Carry out an answer: the exit code. -/
def carryOut : Reply → IO UInt32
  | .print text => do
    IO.print text
    return 0
  | .save path content confirmation => do
    try
      IO.FS.writeFile path content
      IO.print confirmation
      return 0
    catch e =>
      IO.eprint (failureText (writeFailure path) (some (toString e)))
      return 1
  | .failure message cause => do
    IO.eprint (failureText message cause)
    return 1

/-- Answer an invocation. -/
def invoke (invocation : Invocation) : IO UInt32 := do
  let env : Environment :=
    { configFile := ← IO.getEnv "SPECDEC_CONFIG", configHome := ← IO.getEnv "XDG_CONFIG_HOME",
      home := ← IO.getEnv "HOME" }
  let began ← IO.monoMsNow
  let configPaths := (invocation.config.or (Config.path? env)).toList
  let settings ← configPaths.mapM fun path : String => return (path, ← loadEntry true path)
  let config := configFor env (diskOf settings) invocation
  let trees ← (rootsFor env config invocation).mapM fun path : String =>
    return (path, ← loadTree { root := path, fileName := "" })
  let ended ← IO.monoMsNow
  let argument ← loadArgument invocation.command
  carryOut (run env (diskOf (trees ++ argument ++ settings)) (ended - began) invocation)

end RollupInput.Program

/-- Run the program with its arguments. -/
def main (arguments : List String) : IO UInt32 := do
  match RollupInput.CommandLine.parse arguments with
  | .ok invocation => RollupInput.Program.invoke invocation
  | .error .help =>
    IO.print RollupInput.CommandLine.helpText
    return 0
  | .error .version =>
    IO.print RollupInput.CommandLine.versionText
    return 0
  | .error .usage =>
    IO.eprint RollupInput.CommandLine.helpText
    return 2
