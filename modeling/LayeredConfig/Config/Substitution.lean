import LayeredConfig.Json.Value
import LayeredConfig.Text
import LayeredConfig.Words

/-!
# Variables in configurations

The strings of a configuration may refer to variables of the process environment as `${NAME}`.  A second
dollar sign in front, `$${NAME}`, keeps the text `${NAME}`.  Substituted text is not searched again.
-/

namespace LayeredConfig

/-- The variables of a process environment. -/
abbrev Variables := String → Option String

namespace Substitution

/-- A reference as it stands in a text. -/
inductive Reference where
  | replaced (name : String)
  | escaped (name : String)
  deriving DecidableEq

/-- Characters that the name of a variable may start with. -/
def isNameStart (c : Char) : Bool := ('A' ≤ c && c ≤ 'Z') || c = '_'

/-- Characters of the name of a variable. -/
def isNameChar (c : Char) : Bool := isNameStart c || Text.isDigit c

/-- The name between braces that a text starts with. -/
def bracedName? : List Char → Option (List Char)
  | '{' :: s =>
    let name := s.takeWhile isNameChar
    match s.dropWhile isNameChar with
    | '}' :: _ => if name.head?.any isNameStart then some name else none
    | _ => none
  | _ => none

/-- The reference at the start of a text. -/
def reference : Text.Pattern Reference
  | '$' :: '$' :: s => (bracedName? s).map fun name => (.escaped (String.ofList name), name.length + 4)
  | '$' :: s => (bracedName? s).map fun name => (.replaced (String.ofList name), name.length + 3)
  | _ => none

/-- The value of a variable that is set and not empty. -/
def bound? (vars : Variables) (name : String) : Option String :=
  (vars name).filter fun value => !value.isEmpty

/-- The text that stands for a reference.  A variable that is not set, or to the empty text, is missing. -/
def Reference.written (vars : Variables) : Reference → Except String (List Char)
  | .replaced name =>
    match bound? vars name with
    | some value => .ok value.toList
    | none => .error name
  | .escaped name => .ok ('$' :: '{' :: (name.toList ++ ['}']))

/-- The text that stands for a piece of a text. -/
def writtenPiece (vars : Variables) : Text.Piece Reference → Except String (List Char)
  | .plain c => .ok [c]
  | .found r => r.written vars

/-- A text with its references replaced, or else the first variable that is missing. -/
def written (vars : Variables) (s : List Char) : Except String (List Char) := do
  let parts ← (Text.pieces reference s).mapM (writtenPiece vars)
  return parts.flatten

/-- A variable that is needed and not set, with the place of the string that refers to it. -/
structure MissingVariable where
  name : String
  path : String
  deriving DecidableEq

/-- The wording of a missing variable. -/
def MissingVariable.message (m : MissingVariable) : String :=
  "Missing env var \"" ++ m.name ++ "\" referenced at config path: " ++ m.path

/-- The string at `path` with its references replaced. -/
def text (vars : Variables) (path : String) (s : String) : Except MissingVariable String :=
  match written vars s.toList with
  | .ok written => .ok (String.ofList written)
  | .error name => .error ⟨name, path⟩

/-- The place of an array item. -/
def itemPath (path : String) (i : Nat) : String := path ++ "[" ++ toString i ++ "]"

/-- The place of an object member. -/
def memberPath (path key : String) : String := if path.isEmpty then key else path ++ "." ++ key

mutual

/-- The value at `path` with the references in its strings replaced.  The first missing variable in the
order of the document ends the substitution. -/
def value (vars : Variables) (path : String) : Value → Except MissingVariable Value
  | .string s => (text vars path s).map .string
  | .array items => (substitutedItems vars path 0 items).map .array
  | .object members => (substitutedMembers vars path members).map .object
  | v => .ok v

/-- The items of the array at `path` from the `i`-th on. -/
def substitutedItems (vars : Variables) (path : String) (i : Nat) :
    List Value → Except MissingVariable (List Value)
  | [] => .ok []
  | v :: rest => do
    let v ← value vars (itemPath path i) v
    return v :: (← substitutedItems vars path (i + 1) rest)

/-- Members of the object at `path`. -/
def substitutedMembers (vars : Variables) (path : String) :
    List (String × Value) → Except MissingVariable (List (String × Value))
  | [] => .ok []
  | (k, v) :: rest => do
    let v ← value vars (memberPath path k) v
    return (k, v) :: (← substitutedMembers vars path rest)

end

/-- The name that a reference needs a value for. -/
def Reference.needed? : Reference → Option String
  | .replaced name => some name
  | .escaped _ => none

/-- The names that a text needs values for, from left to right. -/
def neededNames (s : List Char) : List String := (Text.occurrences reference s).filterMap Reference.needed?

mutual

/-- The names that the strings of a value need values for, in the order of the document. -/
def valueNames : Value → List String
  | .string s => neededNames s.toList
  | .array items => itemNames items
  | .object members => memberNames members
  | _ => []

/-- The names needed in array items. -/
def itemNames : List Value → List String
  | [] => []
  | v :: rest => valueNames v ++ itemNames rest

/-- The names needed in object members. -/
def memberNames : List (String × Value) → List String
  | [] => []
  | (_, v) :: rest => valueNames v ++ memberNames rest

end

/-- The names that a whole configuration needs values for, sorted. -/
def referencedNames (v : Value) : List String := sortedWords (valueNames v)

/-- A whole configuration with its references replaced. -/
def substitute (vars : Variables) (v : Value) : Except MissingVariable Value := value vars "" v

end Substitution

end LayeredConfig
