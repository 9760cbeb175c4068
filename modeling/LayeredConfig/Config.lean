import LayeredConfig.Config.Substitution
import LayeredConfig.Path
import LayeredConfig.Render
import LayeredConfig.Table.DataFile

/-!
# Configurations

Which tables are consulted and how their answers are rendered and logged.  Every choice but the data file
of a repository may be left open; what a program does then is the same as what `withDefaults` fills in.
-/

namespace LayeredConfig

/-- A table to be consulted. -/
structure Config.Repository where
  name : Option String := none
  dataFile : String
  /-- Lower orders come first. -/
  order : Option Int32 := none
  defaultLabel : Option String := none
  failOnError : Option Bool := none
  configIncomplete : Option Bool := none
  deriving DecidableEq

/-- Choices for what is written. -/
structure Config.Output where
  stripDocument : Option Bool := none
  acceptEmpty : Option Bool := none
  resolvePlaceholders : Option Bool := none
  deriving DecidableEq

/-- Choices for what is logged. -/
structure Config.Logging where
  level : Option String := none
  directory : Option String := none
  redactSensitive : Option Bool := none
  deriving DecidableEq

/-- A configuration. -/
structure Config where
  repositories : List Config.Repository := []
  output : Option Config.Output := none
  logging : Option Config.Logging := none
  deriving DecidableEq

namespace Config

/-- The level that is logged unless another one is chosen. -/
def standardLevel : String := "info"

/-- The default label that is filled in for a repository without one. -/
def filledLabel : String := "master"

namespace Repository

/-- The name that a repository is reported by. -/
def displayName (r : Repository) : String := r.name.getD (Table.nameOfFile r.dataFile)

/-- The policy of the repository's table; what is left open is as for any table. -/
def tableSettings (r : Repository) : TableSettings :=
  let standard : TableSettings := {}
  { failOnError := r.failOnError.getD standard.failOnError
    configIncomplete := r.configIncomplete.getD standard.configIncomplete
    defaultLabel := r.defaultLabel.getD standard.defaultLabel }

/-- The place of a repository among the others. -/
def place (r : Repository) : Int := (r.order.getD 0).toInt

/-- The repository with every choice made. -/
def withDefaults (r : Repository) : Repository :=
  { r with
    order := some (r.order.getD 0)
    defaultLabel := some (r.defaultLabel.getD filledLabel)
    failOnError := some (r.failOnError.getD true)
    configIncomplete := some (r.configIncomplete.getD false) }

end Repository

/-- Whether a request may find nothing. -/
def acceptEmpty (c : Config) : Bool := (c.output.bind Output.acceptEmpty).getD true

/-- How environments are rendered; `noResolve` leaves placeholders as they are, and what is left open is as
for any rendering. -/
def renderOptions (c : Config) (noResolve : Bool) : RenderOptions :=
  let standard : RenderOptions := {}
  { stripDocument := (c.output.bind Output.stripDocument).getD standard.stripDocument
    resolvePlaceholders :=
      !noResolve && (c.output.bind Output.resolvePlaceholders).getD standard.resolvePlaceholders }

/-- The level that is logged. -/
def logLevel (c : Config) : String := (c.logging.bind Logging.level).getD standardLevel

/-- The directory of log files. -/
def logDirectory (c : Config) : Option String := c.logging.bind Logging.directory

/-- Whether secrets are masked before they are logged. -/
def redacts (c : Config) : Bool := (c.logging.bind Logging.redactSensitive).getD true

/-- The output choices, all made. -/
def Output.withDefaults (o : Output) : Output where
  stripDocument := some (o.stripDocument.getD true)
  acceptEmpty := some (o.acceptEmpty.getD true)
  resolvePlaceholders := some (o.resolvePlaceholders.getD true)

/-- The logging choices, all made but the directory. -/
def Logging.withDefaults (l : Logging) : Logging :=
  { l with
    level := some (l.level.getD standardLevel)
    redactSensitive := some (l.redactSensitive.getD true) }

/-- The configuration with every choice made. -/
def withDefaults (c : Config) : Config where
  repositories := c.repositories.map Repository.withDefaults
  output := some (c.output.getD {}).withDefaults
  logging := some (c.logging.getD {}).withDefaults

/-- The configuration with its relative paths seen from the directory of its file. -/
def locatedAt (c : Config) (path : String) : Config :=
  match Path.parent? path with
  | none => c
  | some directory =>
    { c with
      repositories := c.repositories.map fun r => { r with dataFile := Path.join directory r.dataFile }
      logging := c.logging.map fun l => { l with directory := l.directory.map (Path.join directory) } }

end Config

end LayeredConfig
