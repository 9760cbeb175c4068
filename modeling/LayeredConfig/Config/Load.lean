import LayeredConfig.Config.Record
import LayeredConfig.Config.Report

/-!
# Loading configurations

A configuration comes from a YAML file: its variables are substituted, its record is read, defaults are filled
in, paths are located, and a report is made.  A file that is missing stands for an empty configuration.
-/

namespace LayeredConfig.Config

/-- Why a configuration is not loaded. -/
inductive LoadFailure where
  | unreadable (path : String)
  /-- The text is no YAML. -/
  | malformed (path : String)
  | missingVariable (missing : Substitution.MissingVariable)
  /-- The text is not the record of a configuration. -/
  | unfit (path : String)
  deriving DecidableEq

/-- The wording of a failure. -/
def LoadFailure.message : LoadFailure → String
  | .unreadable path => "Failed to read config file: " ++ path
  | .malformed path => "Failed to parse config YAML at: " ++ path
  | .missingVariable _ => "Failed to resolve env vars in config"
  | .unfit path => "Invalid config at: " ++ path

/-- The JSON value of a configuration file as it is written. -/
def loadValue (files : FileSystem) (path : String) : Except LoadFailure Value :=
  if !files.present path then .ok (.object [])
  else
    match files.read path with
    | .error _ => .error (.unreadable path)
    | .ok text =>
      match (Yaml.Document.read? text.toList).bind Yaml.Document.toValue? with
      | none => .error (.malformed path)
      | some value => .ok (value.getD (.object []))

/-- The configuration of a JSON value that was found in a file. -/
def ofFileValue (path : String) (v : Value) : Except LoadFailure Config :=
  match ofValue? v with
  | some c => .ok c
  | none => .error (.unfit path)

/-- The configuration in a file as it is written, without substitution. -/
def load (files : FileSystem) (path : String) : Except LoadFailure Config := do
  ofFileValue path (← loadValue files path)

/-- A configuration that is ready for use, with the report on it. -/
structure Prepared where
  config : Config
  report : Report

/-- The configuration made ready that a JSON value found in a file holds. -/
def prepareValue (files : FileSystem) (vars : Variables) (path : String) (v : Value) :
    Except LoadFailure Prepared := do
  let v ← (Substitution.substitute vars v).mapError .missingVariable
  let c ← ofFileValue path v
  let c := c.withDefaults.locatedAt path
  return ⟨c, c.report files.present⟩

/-- The configuration in a file, made ready. -/
def prepare (files : FileSystem) (vars : Variables) (path : String) :
    Except LoadFailure Prepared := do
  prepareValue files vars path (← loadValue files path)

end LayeredConfig.Config
