import LayeredConfig.CommandLine.Arguments
import LayeredConfig.CommandLine.Check
import LayeredConfig.Config.Composite

/-!
# Carrying out commands

What a command prints, and why it fails.
-/

namespace LayeredConfig.CommandLine

/-- Why a command fails. -/
inductive Fault where
  | config (cause : Config.LoadFailure)
  | tables (cause : Config.TableFailure)
  | render (cause : RenderFailure)
  /-- The configuration or its repositories have problems. -/
  | check (problems : Nat)
  deriving DecidableEq

namespace Fault

/-- The fault of a failure between a request and its document. -/
def failure (cause : Failure) : Fault := .render (.failure cause)

/-- The wording of a fault. -/
def message : Fault → String
  | .config cause => cause.message
  | .tables cause => cause.message
  | .render cause => cause.message
  | .check problems => "Configuration check failed with " ++ toString problems ++ " problem(s)"

end Fault

/-- What a command has printed, and the fault that ended it, if one did. -/
structure Outcome where
  printed : String
  fault : Option Fault := none

namespace Outcome

/-- The outcome of a command that prints at its end. -/
def ofExcept : Except Fault String → Outcome
  | .ok text => ⟨text, none⟩
  | .error fault => ⟨"", some fault⟩

end Outcome

/-- What a process finds around it. -/
structure Surroundings where
  files : FileSystem
  vars : Variables

/-- The composite of a configuration and the request of some arguments. -/
def consult (files : FileSystem) (config : Config) (dataFiles : List String) (a : RequestArguments) :
    Except Fault (Composite × Request) := do
  let composite ← (config.composite files dataFiles).mapError .tables
  let request ← a.request.mapError fun problem => .failure (.invalidRequest problem)
  return (composite, request)

/-- The environment of a request. -/
def resolve (composite : Composite) (request : Request) : Except Fault Environment :=
  (composite.resolve request).outcome.mapError .failure

/-- The environment of a request as JSON. -/
def environmentText (composite : Composite) (request : Request) : Except Fault String := do
  let e ← resolve composite request
  return String.ofList e.toValue.pretty ++ "\n"

/-- The environment of a request, rendered.  The profiles are checked before anything is looked up. -/
def renderedText (options : RenderOptions) (format : OutputFormat) (composite : Composite)
    (request : Request) : Except Fault String := do
  (Render.checkProfiles request.profile).mapError .render
  let e ← resolve composite request
  let text ← (Render.environment options format request.profile e).mapError .render
  return text ++ "\n"

/-- The columns of the grid of look-ups. -/
def lookupColumns : List Terminal.Column :=
  ["Repository", "Label", "Profile", "Application", "Source"].map fun header =>
    ⟨String.toList header, .left⟩

/-- The row of a look-up in a repository. -/
def lookupRow (repository : String) (lookup : Lookup) : List String :=
  [repository, lookup.label, lookup.profile.getD "-", lookup.application, lookup.sourceName]

/-- The rows of all look-ups of a request, in the order in which they are made. -/
def lookupRows (keys : List (String × LookupKeys)) : List (List String) :=
  keys.flatMap fun (repository, keys) => keys.lookups.map (lookupRow repository)

/-- The look-ups of a request as a grid. -/
def expansionText (composite : Composite) (request : Request) : Except Fault String := do
  let keys ← (composite.lookupKeys request).mapError .failure
  let rows := (lookupRows keys).map fun row => row.map String.toList
  return "Requested profiles: " ++ ", ".intercalate (requestedProfiles request.profile) ++ "\n" ++
    String.ofList (Terminal.grid lookupColumns rows)

/-- The outcome of a command under a configuration that is ready for use. -/
def outcome (s : Surroundings) (path : String) (dataFiles : List String) (written : Value)
    (prepared : Config.Prepared) : Command → Outcome
  | .env a => .ofExcept do
    let (composite, request) ← consult s.files prepared.config dataFiles a
    environmentText composite request
  | .render a format noResolve => .ofExcept do
    let (composite, request) ← consult s.files prepared.config dataFiles a
    renderedText (prepared.config.renderOptions noResolve) format composite request
  | .expand a => .ofExcept do
    let (composite, request) ← consult s.files prepared.config dataFiles a
    expansionText composite request
  | .check =>
    let problems := Check.problems s.files prepared
    ⟨Check.text s.files s.vars path written prepared,
      if problems = 0 then none else some (.check problems)⟩

namespace Invocation

/-- The settings of a process, with those that the command line replaces. -/
def settings (i : Invocation) (vars : Variables) : Settings :=
  let settings := Settings.ofVariables vars
  { settings with
    configPath := i.config.or settings.configPath
    timeout := i.timeout.getD settings.timeout }

/-- The configuration file of an invocation. -/
def configFile (i : Invocation) (vars : Variables) : String :=
  (i.settings vars).configFile vars

/-- The data files that an invocation may read. -/
def dataFiles (i : Invocation) (prepared : Config.Prepared) : List String :=
  i.data ++ prepared.config.repositories.map Config.Repository.dataFile

/-- The outcome of an invocation. -/
def run (s : Surroundings) (i : Invocation) : Outcome :=
  let path := i.configFile s.vars
  let loaded : Except Config.LoadFailure (Value × Config.Prepared) := do
    let written ← Config.loadValue s.files path
    return (written, ← Config.prepareValue s.files s.vars path written)
  match loaded with
  | .error cause => ⟨"", some (.config cause)⟩
  | .ok (written, prepared) => outcome s path i.data written prepared i.command

end Invocation

end LayeredConfig.CommandLine
