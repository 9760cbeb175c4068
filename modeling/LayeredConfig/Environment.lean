import LayeredConfig.Json.Record
import LayeredConfig.Merge

/-!
# Environments

The answer to a request: the sources found for it, in order of precedence.
-/

namespace LayeredConfig

/-- The sources found for a request. -/
structure Environment where
  name : String
  profiles : List String
  label : Option String
  version : Option String := none
  state : Option String := none
  sources : List PropertySource := []

namespace Environment

/-- Whether no source was found. -/
def isEmpty (e : Environment) : Bool := e.sources.isEmpty

/-- The merged properties of all sources. -/
def merged (e : Environment) : Properties := merge (e.sources.map PropertySource.source)

/-- A text or null. -/
def optionalText (text : Option String) : Value := (text.map Value.string).getD .null

/-- The JSON value of an environment. -/
def toValue (e : Environment) : Value :=
  .object [
    ("name", .string e.name),
    ("profiles", .array (e.profiles.map Value.string)),
    ("label", optionalText e.label),
    ("version", optionalText e.version),
    ("state", optionalText e.state),
    ("propertySources", .array (e.sources.map fun s =>
      .object [("name", .string s.name), ("source", .object s.source.entries)]))]

/-- The source of a JSON record with both its fields. -/
def sourceOfValue? (v : Value) : Option PropertySource := do
  match ← v.fields? ["name", "source"] with
  | [name, source] =>
    return ⟨← Value.required? Value.string? name,
      OrderedMap.ofList (← Value.required? Value.members? source)⟩
  | _ => none

/-- The environment of a JSON record.  Label, version and state may be left out of an object; a record in
an array has all its fields. -/
def ofValue? (v : Value) : Option Environment := do
  let complete := match v with
    | .array items => items.length = 6
    | _ => true
  if !complete then none
  match ← v.fields? ["name", "profiles", "label", "version", "state", "propertySources"] with
  | [name, profiles, label, version, state, sources] =>
    return {
      name := ← Value.required? Value.string? name
      profiles := ← Value.required? (Value.list? Value.string?) profiles
      label := ← Value.optional? Value.string? label
      version := ← Value.optional? Value.string? version
      state := ← Value.optional? Value.string? state
      sources := ← Value.required? (Value.list? sourceOfValue?) sources }
  | _ => none

end Environment

end LayeredConfig
