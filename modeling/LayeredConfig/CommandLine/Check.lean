import LayeredConfig.CommandLine.Settings
import LayeredConfig.Config.Load
import LayeredConfig.Terminal.Grid

/-!
# Checking a configuration

The report on a configuration as it is shown on a terminal, with the state of every repository.
-/

namespace LayeredConfig.CommandLine

/-- The weight of a note. -/
inductive Note where
  | warning
  | error
  | success
  deriving DecidableEq

namespace Note

/-- What a note starts with where there are no colours. -/
def word : Note → String
  | .warning => "WARN:"
  | .error => "ERROR:"
  | .success => "OK:"

/-- What a note starts with where there are colours. -/
def symbol : Note → String
  | .warning => "\x1b[33m\x1b[1m⚠\x1b[0m"
  | .error => "\x1b[31m\x1b[1m✗\x1b[0m"
  | .success => "\x1b[32m\x1b[1m✓\x1b[0m"

/-- The line of a note. -/
def line (coloured : Bool) (note : Note) (text : String) : String :=
  (if coloured then note.symbol else note.word) ++ " " ++ text ++ "\n"

end Note

/-- Whether a terminal is said to show colours. -/
def showsColours (vars : Variables) : Bool :=
  (vars "NO_COLOR").isNone &&
    ((vars "COLORTERM").isSome || (vars "TERM").any (· ≠ "dumb"))

namespace Check

/-- The notes on the findings of a report, warnings first. -/
def findings (coloured : Bool) (report : Config.Report) : String :=
  let lines (note : Note) (list : List Config.Finding) : List String :=
    list.map fun f => note.line coloured (f.path ++ ": " ++ f.message)
  String.join (lines .warning report.warnings ++ lines .error report.errors)

/-- The state of a repository: the number of its rows, or why they cannot be read. -/
def state (files : FileSystem) (r : Config.Repository) : Except Table.LoadFailure Nat :=
  (Table.load files r.tableSettings r.dataFile).map fun table => table.rows.length

/-- The wording of a state. -/
def stateText : Except Table.LoadFailure Nat → String
  | .ok rows => toString rows ++ " rows"
  | .error failure => "error: " ++ ": ".intercalate failure.causes

/-- The columns of the grid of repositories. -/
def columns : List Terminal.Column :=
  [("Repository", .left), ("Order", .right), ("Label", .left), ("Data file", .left),
    ("Status", .left)].map fun (header, align) => ⟨String.toList header, align⟩

/-- The row of a repository. -/
def row (files : FileSystem) (r : Config.Repository) : List String :=
  [r.displayName, toString r.place, r.defaultLabel.getD "", r.dataFile, stateText (state files r)]

/-- The grid of the repositories, set apart by empty lines. -/
def repositories (files : FileSystem) (list : List Config.Repository) : String :=
  if list.isEmpty then ""
  else
    let rows := list.map fun r => (row files r).map String.toList
    "\n" ++ String.ofList (Terminal.grid columns rows) ++ "\n"

/-- The line that names the variables of a configuration. -/
def variableLine (names : List String) : String :=
  if names.isEmpty then "" else "Environment variables: " ++ ", ".intercalate names ++ "\n"

/-- How many errors there are, those of the repositories included. -/
def problems (files : FileSystem) (prepared : Config.Prepared) : Nat :=
  prepared.report.errors.length +
    prepared.config.repositories.countP fun r => !(state files r).isOk

/-- What is printed on a configuration: where it is, which variables it needs, what has been found about it,
and the state of its repositories. -/
def text (files : FileSystem) (vars : Variables) (path : String) (written : Value)
    (prepared : Config.Prepared) : String :=
  let coloured := showsColours vars
  "Config file: " ++ path ++ "\n" ++ variableLine (Substitution.referencedNames written) ++ "\n" ++
    findings coloured prepared.report ++ repositories files prepared.config.repositories ++
    if problems files prepared = 0 then Note.line coloured .success "Configuration is valid" else ""

end Check

end LayeredConfig.CommandLine
