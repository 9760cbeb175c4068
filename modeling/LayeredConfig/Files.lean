import LayeredConfig.OrderedMap
import LayeredConfig.Path

/-!
# Files

What is asked of a file system: whether something stands under a path, and the text of a file.  A tree of
files answers both for the paths that lead into it.
-/

namespace LayeredConfig

/-- Why a file is not read. -/
inductive AccessProblem where
  | missing
  /-- A path goes on behind a file. -/
  | notDirectory
  | isDirectory
  | denied
  deriving DecidableEq

/-- The wording of a problem. -/
def AccessProblem.message : AccessProblem → String
  | .missing => "No such file or directory (os error 2)"
  | .notDirectory => "Not a directory (os error 20)"
  | .isDirectory => "Is a directory (os error 21)"
  | .denied => "Permission denied (os error 13)"

/-- A file system as it is when it is asked. -/
structure FileSystem where
  present : String → Bool
  read : String → Except AccessProblem String

/-- Files with their texts, each under the steps that lead to it from the working directory.  The directories
on the way exist with them. -/
structure FileTree where
  files : List (List String × String)

namespace FileTree

/-- Where a walk along a path has come to. -/
inductive Place where
  /-- A directory around the working directory. -/
  | outside
  /-- What the steps lead to from the working directory. -/
  | inside (path : List String)

/-- The text of the file under some steps. -/
def text? (tree : FileTree) (path : List String) : Option String :=
  (tree.files.find? (·.1 = path)).map Prod.snd

/-- Whether some steps lead to a directory. -/
def isDirectory (tree : FileTree) (path : List String) : Bool :=
  path.isEmpty || tree.files.any fun file => path.isPrefixOf file.1 && file.1 ≠ path

/-- Take one step from a directory. -/
def step (tree : FileTree) (place : Place) (segment : String) : Except AccessProblem Place :=
  match place with
  | .outside =>
    if Path.isIdle segment.toList || segment = ".." then .ok .outside else .error .missing
  | .inside path =>
    if !tree.isDirectory path then .error .notDirectory
    else if Path.isIdle segment.toList then .ok (.inside path)
    else if segment = ".." then
      .ok (if path.isEmpty then .outside else .inside path.dropLast)
    else
      let next := path ++ [segment]
      if tree.isDirectory next || (tree.text? next).isSome then .ok (.inside next)
      else .error .missing

/-- Where a path leads. -/
def walk (tree : FileTree) (path : String) : Except AccessProblem Place :=
  if path.isEmpty then .error .missing
  else
    let start : Place := if Path.isAbsolute path then .outside else .inside []
    ((Text.fields '/' path.toList).map String.ofList).foldlM tree.step start

/-- The text of the file that a path leads to. -/
def read (tree : FileTree) (path : String) : Except AccessProblem String :=
  match tree.walk path with
  | .error problem => .error problem
  | .ok .outside => .error .isDirectory
  | .ok (.inside path) =>
    match tree.text? path with
    | some text => .ok text
    | none => .error .isDirectory

/-- The tree as a file system. -/
def toFileSystem (tree : FileTree) : FileSystem where
  present path := (tree.walk path).isOk
  read := tree.read

/-- The tree of files given by their paths; a later file replaces an earlier one of its path. -/
def ofList (files : List (String × String)) : FileTree where
  files := (OrderedMap.ofList files).entries.map fun file =>
    ((Text.fields '/' file.1.toList).map String.ofList, file.2)

end FileTree

end LayeredConfig
