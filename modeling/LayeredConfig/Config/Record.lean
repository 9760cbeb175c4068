import LayeredConfig.Config
import LayeredConfig.Json.Record

/-!
# Configurations as JSON

The record of a configuration.  Fields that are not chosen are left out, and so is an empty list of
repositories.
-/

namespace LayeredConfig.Config

/-- A whole number of 32 bits. -/
def order? (v : Value) : Option Int32 :=
  (v.whole?.filter fun i => -2147483648 ≤ i && i < 2147483648).map Int32.ofInt

/-- A field with a default: it may be left out, but null is no value of it. -/
def listed? {α : Type} (read : Value → Option α) : Option Value → Option (List α)
  | none => some []
  | some v => Value.list? read v

/-- The repository of a record. -/
def Repository.ofValue? (v : Value) : Option Repository := do
  match ← v.fields? ["name", "dataFile", "order", "defaultLabel", "failOnError", "configIncomplete"] with
  | [name, dataFile, order, defaultLabel, failOnError, configIncomplete] =>
    return {
      name := ← Value.optional? Value.string? name
      dataFile := ← Value.required? Value.string? dataFile
      order := ← Value.optional? order? order
      defaultLabel := ← Value.optional? Value.string? defaultLabel
      failOnError := ← Value.optional? Value.bool? failOnError
      configIncomplete := ← Value.optional? Value.bool? configIncomplete }
  | _ => none

/-- The output choices of a record. -/
def Output.ofValue? (v : Value) : Option Output := do
  match ← v.fields? ["stripDocument", "acceptEmpty", "resolvePlaceholders"] with
  | [stripDocument, acceptEmpty, resolvePlaceholders] =>
    return {
      stripDocument := ← Value.optional? Value.bool? stripDocument
      acceptEmpty := ← Value.optional? Value.bool? acceptEmpty
      resolvePlaceholders := ← Value.optional? Value.bool? resolvePlaceholders }
  | _ => none

/-- The logging choices of a record. -/
def Logging.ofValue? (v : Value) : Option Logging := do
  match ← v.fields? ["level", "dir", "redactSensitive"] with
  | [level, directory, redactSensitive] =>
    return {
      level := ← Value.optional? Value.string? level
      directory := ← Value.optional? Value.string? directory
      redactSensitive := ← Value.optional? Value.bool? redactSensitive }
  | _ => none

/-- The configuration of a record. -/
def ofValue? (v : Value) : Option Config := do
  match ← v.fields? ["repositories", "output", "logging"] with
  | [repositories, output, logging] =>
    return {
      repositories := ← listed? Repository.ofValue? repositories
      output := ← Value.optional? Output.ofValue? output
      logging := ← Value.optional? Logging.ofValue? logging }
  | _ => none

/-- A whole number as a value, if it fits 64 bits. -/
def wholeValue (i : Int) : Option Value := (Whole.ofInt? i).map fun n => .number (.whole n)

/-- The record of a repository. -/
def Repository.toValue (r : Repository) : Value :=
  Value.ofFields [
    ("name", r.name.map .string),
    ("dataFile", some (.string r.dataFile)),
    ("order", r.order.bind fun order => wholeValue order.toInt),
    ("defaultLabel", r.defaultLabel.map .string),
    ("failOnError", r.failOnError.map .bool),
    ("configIncomplete", r.configIncomplete.map .bool)]

/-- The record of the output choices. -/
def Output.toValue (o : Output) : Value :=
  Value.ofFields [
    ("stripDocument", o.stripDocument.map .bool),
    ("acceptEmpty", o.acceptEmpty.map .bool),
    ("resolvePlaceholders", o.resolvePlaceholders.map .bool)]

/-- The record of the logging choices. -/
def Logging.toValue (l : Logging) : Value :=
  Value.ofFields [
    ("level", l.level.map .string),
    ("dir", l.directory.map .string),
    ("redactSensitive", l.redactSensitive.map .bool)]

/-- The record of a configuration. -/
def toValue (c : Config) : Value :=
  Value.ofFields [
    ("repositories",
      if c.repositories.isEmpty then none else some (.array (c.repositories.map Repository.toValue))),
    ("output", c.output.map Output.toValue),
    ("logging", c.logging.map Logging.toValue)]

end LayeredConfig.Config
