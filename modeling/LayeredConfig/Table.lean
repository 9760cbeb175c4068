import LayeredConfig.Provider

/-!
# Property tables

A table of rows, each a property of one application, profile and label.  A row without a profile answers
only look-ups without a profile.
-/

namespace LayeredConfig

/-- One stored property. -/
structure Row where
  application : String
  profile : Option String
  label : String
  key : String
  value : Value

/-- The retrieval policy of a table. -/
structure TableSettings where
  failOnError : Bool := true
  configIncomplete : Bool := false
  defaultLabel : String := standardLabel
  deriving DecidableEq

/-- A store of rows. -/
structure Table where
  name : String
  settings : TableSettings := {}
  rows : List Row := []
  available : Bool := true

/-- Whether a row answers a look-up. -/
def Row.answers (row : Row) (lookup : Lookup) : Bool :=
  row.application = lookup.application && row.profile = lookup.profile && row.label = lookup.label

namespace Table

/-- Add a row behind the others. -/
def push (table : Table) (row : Row) : Table := { table with rows := table.rows ++ [row] }

/-- The properties of the rows that answer a look-up; a later row overrides the value of an earlier one
with its key. -/
def select (table : Table) (lookup : Lookup) : Properties :=
  OrderedMap.ofList ((table.rows.filter (·.answers lookup)).map fun row => (row.key, row.value))

/-- The failure of a table that is not available. -/
def unavailable (table : Table) : String := "property table " ++ table.name ++ " is unavailable"

/-- What the table holds for a look-up. -/
def fetch (table : Table) (lookup : Lookup) : Fetched :=
  if table.available then
    let properties := table.select lookup
    if properties.isEmpty then .absent else .source properties
  else .failed [table.unavailable]

/-- The table as a provider. -/
def toProvider (table : Table) : Provider where
  name := table.name
  fetch := table.fetch
  failOnError := table.settings.failOnError
  configIncomplete := table.settings.configIncomplete
  defaultLabel := table.settings.defaultLabel

end Table

end LayeredConfig
