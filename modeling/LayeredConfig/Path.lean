import LayeredConfig.Text

/-!
# Paths

Paths of files as texts with segments between slashes.  An empty segment and the segment `.` name no step,
except that a path may be written out from the current directory with one leading `.`.
-/

namespace LayeredConfig.Path

/-- Whether a path starts at the root. -/
def isAbsolute (path : String) : Bool := path.toList.head? = some '/'

/-- A path seen from a base directory. -/
def join (base path : String) : String :=
  if isAbsolute path then path
  else if base.isEmpty || base.toList.getLast? = some '/' then base ++ path
  else base ++ "/" ++ path

/-- What a path starts with, the root or the current directory written out, and the rest of it. -/
def anchored : List Char → List Char × List Char
  | '/' :: s => (['/'], s)
  | ['.'] => (['.'], [])
  | '.' :: '/' :: s => (['.'], '/' :: s)
  | s => ([], s)

/-- Whether a segment names no step. -/
def isIdle (segment : List Char) : Bool := segment.isEmpty || segment = ['.']

/-- The segments behind the start of a path, last one first, from the last step on. -/
def steps (body : List Char) : List (List Char) := (Text.fields '/' body).reverse.dropWhile isIdle

/-- The path without its last step; the root and the empty path have none. -/
def parent? (path : String) : Option String :=
  let (anchor, body) := anchored path.toList
  match steps body with
  | [] => if anchor = ['.'] then some "" else none
  | _ :: rest =>
    some (String.ofList (anchor ++ Text.joinWith ['/'] (rest.dropWhile isIdle).reverse))

/-- A file name without its extension; a point at the start belongs to the name. -/
def withoutExtension (name : List Char) : List Char :=
  match name.reverse.dropWhile (· ≠ '.') with
  | [] | ['.'] => name
  | _ :: before => before.reverse

/-- The name of the file that a path leads to, without its extension. -/
def stem? (path : String) : Option String :=
  match steps (anchored path.toList).2 with
  | [] => none
  | name :: _ => if name = ['.', '.'] then none else some (String.ofList (withoutExtension name))

end LayeredConfig.Path
