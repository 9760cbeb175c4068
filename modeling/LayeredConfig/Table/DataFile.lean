import LayeredConfig.Files
import LayeredConfig.Flatten
import LayeredConfig.Table
import LayeredConfig.Yaml.Content

/-!
# Data files

A table in a YAML file: rows as they are, and nested documents, each of which stands for the rows of its
flattened properties.
-/

namespace LayeredConfig

/-- A nested document for one application, profile and label. -/
structure DataFile.Source where
  application : String
  profile : Option String
  /-- The default label of the table, if there is none. -/
  label : Option String
  properties : Value

/-- What a data file holds. -/
structure DataFile where
  rows : List Row
  sources : List DataFile.Source

namespace DataFile

/-- The rows of a nested document. -/
def Source.rows (defaultLabel : String) (source : Source) : List Row :=
  source.properties.flatten.entries.map fun e => {
    application := source.application
    profile := source.profile
    label := source.label.getD defaultLabel
    key := e.1
    value := e.2 }

/-- All rows of a file, those of the nested documents behind the others. -/
def allRows (defaultLabel : String) (file : DataFile) : List Row :=
  file.rows ++ file.sources.flatMap (·.rows defaultLabel)

section Reading

variable (d : Yaml.Document)

/-- The field of a record that must be given. -/
def given (field : Option Yaml.Node) : Yaml.Reading Yaml.Node :=
  match field with
  | some n => return n
  | none => failure

/-- The row of a record, whose collections may be nested to `depth`. -/
def row (depth : Nat) (n : Yaml.Node) : Yaml.Reading Row := do
  match ← d.fields ["application", "profile", "label", "key", "value"] n with
  | [application, profile, label, key, value] =>
    return {
      application := ← d.text (← given application)
      profile := ← d.optionalText profile
      label := ← d.text (← given label)
      key := ← d.text (← given key)
      value := ← d.value (depth - 1) (← given value) }
  | _ => failure

/-- The nested document of a record, whose collections may be nested to `depth`. -/
def source (depth : Nat) (n : Yaml.Node) : Yaml.Reading Source := do
  match ← d.fields ["application", "profile", "label", "properties"] n with
  | [application, profile, label, properties] =>
    return {
      application := ← d.text (← given application)
      profile := ← d.optionalText profile
      label := ← d.optionalText label
      properties := ← d.value (depth - 1) (← given properties) }
  | _ => failure

/-- A list that may be left out. -/
def list {α : Type} (read : Nat → Yaml.Node → Yaml.Reading α) (depth : Nat) (field : Option Yaml.Node) :
    Yaml.Reading (List α) :=
  match field with
  | some n => d.items read depth n
  | none => return []

/-- The content of a data file. -/
def content : Yaml.Reading DataFile := do
  match ← d.fields ["rows", "sources"] (d.root.getD .omitted) with
  | [rows, sources] =>
    let depth := Yaml.maxDepth - 1
    return { rows := ← list d (row d) depth rows, sources := ← list d (source d) depth sources }
  | _ => failure

end Reading

/-- The content of a YAML text. -/
def parse? (text : String) : Option DataFile := do
  let d ← Yaml.Document.read? text.toList
  (content d).run' 0

end DataFile

namespace Table

/-- Why a table is not loaded. -/
inductive LoadFailure where
  | unreadable (path : String) (problem : AccessProblem)
  /-- The text is no YAML, or not the YAML of a table. -/
  | malformed (path name : String)
  deriving DecidableEq

/-- The wording of a table's text that cannot be used. -/
def malformedText (name : String) : String := "Failed to parse property table YAML for: " ++ name

/-- The wording of a failure and of its causes, outermost first. -/
def LoadFailure.causes : LoadFailure → List String
  | .unreadable path problem => ["Failed to read property table: " ++ path, problem.message]
  | .malformed path name => ["Invalid property table at: " ++ path, malformedText name]

/-- The table of a YAML text. -/
def parse? (name : String) (settings : TableSettings) (text : String) : Option Table :=
  (DataFile.parse? text).map fun file =>
    { name, settings, rows := file.allRows settings.defaultLabel }

/-- The name of the table in a file. -/
def nameOfFile (path : String) : String := (Path.stem? path).getD "table"

/-- The table in a file. -/
def load (files : FileSystem) (settings : TableSettings) (path : String) : Except LoadFailure Table :=
  match files.read path with
  | .error problem => .error (.unreadable path problem)
  | .ok text =>
    match parse? (nameOfFile path) settings text with
    | some table => .ok table
    | none => .error (.malformed path (nameOfFile path))

end Table

end LayeredConfig
