import LayeredConfig.CommandLine.Run

/-!
# The program

Everything that is decided is decided by the functions on invocations.  What is left is to look at the files
and the variables that an invocation depends on, and to print what comes of it.
-/

namespace LayeredConfig.CommandLine

/-- The variables that a process may depend on whatever its configuration is. -/
def processVariables : List String :=
  ["ENVFORGE_CONFIG", "ENVFORGE_CONFIG_DIR", "ENVFORGE_TIMEOUT_MS", "ENVFORGE_LOG_JSON", "HOME",
    "NO_COLOR", "COLORTERM", "TERM"]

/-- Some variables as they are now. -/
def lookUpVariables (names : List String) : IO Variables := do
  let found ← names.mapM fun name => do return (name, ← IO.getEnv name)
  return fun name => (found.lookup name).join

/-- Why a file could not be read. -/
def accessProblem : IO.Error → AccessProblem
  | .permissionDenied .. => .denied
  | .inappropriateType _ code _ => if code = 21 then .isDirectory else .notDirectory
  | .illegalOperation .. => .isDirectory
  | _ => .missing

/-- The text of a file as it is now. -/
def lookUpFile (path : String) : IO (Except AccessProblem String) := do
  try
    return .ok (← IO.FS.readFile path)
  catch e => return .error (accessProblem e)

/-- Some files as they are now. -/
def lookUpFiles (paths : List String) : IO FileSystem := do
  let found ← paths.mapM fun path => do return (path, ← lookUpFile path)
  let read (path : String) := (found.lookup path).getD (.error .missing)
  let present (path : String) : Bool :=
    match read path with
    | .error .missing | .error .notDirectory => false
    | _ => true
  return { present, read }

/-- What an invocation finds around it. -/
def lookAround (i : Invocation) : IO Surroundings := do
  let path := i.configFile (← lookUpVariables processVariables)
  let configOnly ← lookUpFiles [path]
  let names := ((Config.loadValue configOnly path).toOption.map Substitution.referencedNames).getD []
  let vars ← lookUpVariables (processVariables ++ names)
  let dataFiles := ((Config.prepare configOnly vars path).toOption.map i.dataFiles).getD []
  return { files := ← lookUpFiles (path :: dataFiles), vars }

end LayeredConfig.CommandLine

/-- Carry out a command line. -/
def main (args : List String) : IO UInt32 := do
  match LayeredConfig.CommandLine.Invocation.parse args with
  | .error problem =>
    if problem.isQuestion then
      IO.println problem.message
      return 0
    else
      IO.eprintln problem.message
      return 2
  | .ok invocation =>
    let outcome := invocation.run (← LayeredConfig.CommandLine.lookAround invocation)
    IO.print outcome.printed
    match outcome.fault with
    | none => return 0
    | some fault =>
      IO.eprintln ("Error: " ++ fault.message)
      return 1
