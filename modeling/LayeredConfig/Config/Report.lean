import LayeredConfig.Config

/-!
# Reports

What is wrong or doubtful about a configuration.  Errors make it invalid, warnings do not.
-/

namespace LayeredConfig

/-- A remark on one field of a configuration. -/
structure Config.Finding where
  path : String
  message : String
  deriving DecidableEq

/-- The findings on a configuration. -/
structure Config.Report where
  errors : List Config.Finding := []
  warnings : List Config.Finding := []
  deriving DecidableEq

namespace Config

/-- The wording of a finding by itself. -/
def Finding.text (f : Finding) : String :=
  "Config validation error at '" ++ f.path ++ "': " ++ f.message

/-- Whether a configuration can be used. -/
def Report.isValid (r : Report) : Bool := r.errors.isEmpty

/-- The findings of two reports together. -/
def Report.append (r s : Report) : Report := ⟨r.errors ++ s.errors, r.warnings ++ s.warnings⟩

/-- The findings of some reports one after another. -/
def Report.all (reports : List Report) : Report := reports.foldl Report.append {}

/-- A report with one error. -/
def Report.error (path message : String) : Report := { errors := [⟨path, message⟩] }

/-- A report with one warning. -/
def Report.warning (path message : String) : Report := { warnings := [⟨path, message⟩] }

/-- The levels that can be logged. -/
def logLevels : List String := ["error", "warn", "info", "debug", "trace"]

/-- The place of a repository in a configuration. -/
def repositoryPath (i : Nat) : String := "repositories[" ++ toString i ++ "]"

/-- The report on a data file, in knowledge of the files that exist. -/
def dataFileReport (present : String → Bool) (path dataFile : String) : Report :=
  if dataFile.isEmpty then .error (path ++ ".dataFile") "dataFile cannot be empty"
  else if present dataFile then {}
  else .warning (path ++ ".dataFile") ("Data file " ++ dataFile ++ " does not exist")

/-- Whether a text names no label. -/
def isBlankLabel (label : String) : Bool :=
  let trimmed := Text.trim label.toList
  trimmed.isEmpty || trimmed = [',']

/-- The report on a default label. -/
def labelReport (path : String) : Option String → Report
  | none => {}
  | some label =>
    if isBlankLabel label then .error (path ++ ".defaultLabel") "defaultLabel cannot be blank" else {}

/-- The report on a name, in knowledge of the names before it. -/
def nameReport (earlier : List String) (path name : String) : Report :=
  if earlier.contains name then
    .warning (path ++ ".name") ("Duplicate repository name '" ++ name ++ "'")
  else {}

/-- The reports on repositories from the `i`-th on, in knowledge of the names before them. -/
def repositoryReports (present : String → Bool) (i : Nat) (earlier : List String) :
    List Repository → List Report
  | [] => []
  | r :: rest =>
    let path := repositoryPath i
    dataFileReport present path r.dataFile :: labelReport path r.defaultLabel ::
      nameReport earlier path r.displayName ::
      repositoryReports present (i + 1) (r.displayName :: earlier) rest

/-- The report on a log level. -/
def levelReport : Option String → Report
  | none => {}
  | some level =>
    if logLevels.contains (String.ofList (Text.lower level.toList)) then {}
    else
      .error "logging.level"
        ("Unknown log level '" ++ level ++ "'. Use one of: " ++ ", ".intercalate logLevels)

/-- The report on the number of repositories. -/
def emptinessReport (c : Config) : Report :=
  if c.repositories.isEmpty then
    .warning "repositories" "No repositories configured; every environment will be empty"
  else {}

/-- The report on a configuration, in knowledge of the files that exist. -/
def report (present : String → Bool) (c : Config) : Report :=
  .all (c.emptinessReport :: (repositoryReports present 0 [] c.repositories ++
    [levelReport (c.logging.bind Logging.level)]))

end Config

end LayeredConfig
