import LayeredConfig.Json.Value

/-!
# Records in JSON

A record is an object with its fields by name, or an array with its fields by position.  Unknown members
are ignored; an array may be shorter than the record but not longer.
-/

namespace LayeredConfig

namespace Value

/-- The values of the named fields, `none` for those that are left out. -/
def fields? (names : List String) : Value → Option (List (Option Value))
  | .object members => some (names.map fun name => Entries.get? name members)
  | .array items =>
    if items.length ≤ names.length then
      some (items.map some ++ List.replicate (names.length - items.length) none)
    else none
  | _ => none

/-- Read a field that may be left out or null. -/
def optional? {α : Type} (read : Value → Option α) : Option Value → Option (Option α)
  | none => some none
  | some .null => some none
  | some v => (read v).map some

/-- Read a field that must be there. -/
def required? {α : Type} (read : Value → Option α) (field : Option Value) : Option α := field.bind read

/-- Read every item of an array. -/
def list? {α : Type} (read : Value → Option α) (v : Value) : Option (List α) :=
  v.items?.bind fun items => items.mapM read

/-- The members that are present of an object under construction. -/
def ofFields (fields : List (String × Option Value)) : Value :=
  .object (fields.filterMap fun field => field.2.map fun v => (field.1, v))

end Value

end LayeredConfig
