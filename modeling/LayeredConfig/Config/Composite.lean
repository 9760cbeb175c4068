import LayeredConfig.Composite
import LayeredConfig.Config

/-!
# The tables of a configuration

The composite of the repositories that a configuration names.  Further data files come before all of them, in
the order given.
-/

namespace LayeredConfig.Config

/-- Why the tables of a configuration are not loaded. -/
inductive TableFailure where
  | dataFile (cause : Table.LoadFailure)
  | repository (name : String) (cause : Table.LoadFailure)
  deriving DecidableEq

namespace TableFailure

/-- The failure of the table itself. -/
def cause : TableFailure → Table.LoadFailure
  | .dataFile cause => cause
  | .repository _ cause => cause

/-- The wording of a failure and of its causes, outermost first. -/
def causes : TableFailure → List String
  | .dataFile cause => cause.causes
  | .repository name cause => ("Failed to load repository '" ++ name ++ "'") :: cause.causes

/-- The wording of a failure. -/
def message (f : TableFailure) : String := f.causes.headD ""

end TableFailure

/-- The order of data files that are not configured: the least one of 32 bits. -/
def firstOrder : Int32 := Int32.minValue

/-- The member of a data file that is not configured. -/
def dataFileMember (files : FileSystem) (path : String) : Except TableFailure Member := do
  let table ← (Table.load files {} path).mapError .dataFile
  return ⟨firstOrder.toInt, { provider := table.toProvider }⟩

/-- The member of a repository. -/
def repositoryMember (files : FileSystem) (r : Repository) : Except TableFailure Member := do
  let table ← (Table.load files r.tableSettings r.dataFile).mapError (.repository r.displayName)
  return ⟨r.place, { provider := { table with name := r.displayName }.toProvider }⟩

/-- The composite of some data files and of the repositories of a configuration. -/
def composite (files : FileSystem) (c : Config) (dataFiles : List String) :
    Except TableFailure Composite := do
  let further ← dataFiles.mapM (dataFileMember files)
  let configured ← c.repositories.mapM (repositoryMember files)
  return (further ++ configured).foldl Composite.add { acceptEmpty := c.acceptEmpty }

end LayeredConfig.Config
