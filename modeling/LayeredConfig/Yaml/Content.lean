import LayeredConfig.Json.Value
import LayeredConfig.Yaml.Node
import LayeredConfig.Yaml.Scalar

/-!
# The content of a document

JSON values, texts, lists and records read from the nodes of a document.  Aliases are followed as they are
met; how often that may happen, and how deeply collections may be nested, is limited.
-/

namespace LayeredConfig.Yaml

/-- A reading of a document, which counts the aliases that have been followed. -/
abbrev Reading (α : Type) := StateT Nat Option α

/-- How deeply collections may be nested. -/
def maxDepth : Nat := 128

namespace Document

/-- The number of scalars, aliases, starts and ends of collections in a document. -/
def size (d : Document) : Nat := (d.root.map Node.size).getD 1

/-- The node that a node stands for.  Aliases may be followed a hundred times as often as there are parts of
the document. -/
def follow (d : Document) : Node → Reading Node
  | .alias number => do
    let followed ← get
    if 100 * d.size ≤ followed then failure
    set (followed + 1)
    d.anchors.node? number
  | n => return n

/-- The text of a scalar, whatever it would stand for. -/
def text (d : Document) (n : Node) : Reading String := do
  match ← d.follow n with
  | .scalar _ _ text => return text
  | _ => failure

end Document

/-- The start of the tags that YAML itself defines. -/
def coreTag (name : String) : String := "tag:yaml.org,2002:" ++ name

/-- The value that a plain scalar stands for.  Whole numbers must fit 64 bits. -/
def plainValue (text : String) : Option Value :=
  match plain text with
  | .null => some .null
  | .bool b => some (.bool b)
  | .whole n => (Whole.ofInt? n).map fun w => .number (.whole w)
  | .float x => some (.number (.float x))
  | .nonFinite => some .null
  | .text => some (.string text)

/-- The value of a scalar.  A tag of the core asks for its type, a local tag has no value, and any other tag
makes a string. -/
def scalarValue (tag : Option String) (isPlain : Bool) (text : String) : Option Value :=
  match tag with
  | none => if isPlain then plainValue text else some (.string text)
  | some tag =>
    if tag.startsWith "!" then none
    else if tag = coreTag "bool" then (bool? text).map .bool
    else if tag = coreTag "null" then if isNull text then some .null else none
    else if tag = coreTag "int" then
      ((whole? text.toList).bind Whole.ofInt?).map fun w => .number (.whole w)
    else if tag = coreTag "float" then
      if isNonFinite text then some .null
      else (float? text.toList).map fun x => .number (.float x)
    else some (.string text)

/-- Whether a tag is a local one, which no collection may have. -/
def isLocalTag (tag : Option String) : Bool := tag.any (·.startsWith "!")

/-- Whether a node is a scalar that is left out, which stands for an empty collection. -/
def isOmitted : Node → Bool
  | .scalar _ isPlain text => isPlain && text.isEmpty
  | _ => false

namespace Document

/-- The value of a node within `depth` levels of collections.  A key that is given twice has the value given
last. -/
def value (d : Document) : Nat → Node → Reading Value
  | depth, n => do
    match depth, ← d.follow n with
    | _, .scalar tag isPlain text => scalarValue tag isPlain text
    | depth + 1, .sequence tag items =>
      if isLocalTag tag then failure
      return .array (← items.mapM (d.value depth))
    | depth + 1, .mapping tag entries =>
      if isLocalTag tag then failure
      let members ← entries.mapM fun (k, v) => do
        let key ← d.text k
        return (key, ← d.value depth v)
      return .object (Entries.putAll [] members)
    | _, _ => failure

/-- The items of a list; a scalar that is left out is the empty list. -/
def items {α : Type} (d : Document) (read : Nat → Node → Reading α) (depth : Nat) (n : Node) :
    Reading (List α) := do
  let n ← d.follow n
  if isOmitted n then return []
  match depth, n with
  | depth + 1, .sequence _ items => items.mapM (read depth)
  | _, _ => failure

/-- The fields of a record that are given, in the order of `names`.  A field may not be given twice, and
entries under other names are left unread. -/
def fields (d : Document) (names : List String) (n : Node) : Reading (List (Option Node)) := do
  let n ← d.follow n
  let entries ←
    match n with
    | .mapping _ entries =>
      entries.mapM fun (k, v) => do
        let key ← d.text k
        return (key, v)
    | n => if isOmitted n then pure [] else failure
  let given := (Entries.keys entries).filter names.contains
  if given.eraseDups.length ≠ given.length then failure
  return names.map fun name => Entries.get? name entries

/-- A text that may be left out or null. -/
def optionalText (d : Document) : Option Node → Reading (Option String)
  | none => return none
  | some n => do
    match ← d.follow n with
    | .scalar tag isPlain text =>
      if !isPlain then return some text
      match tag with
      | none => return if text.isEmpty || isNull text then none else some text
      | some tag =>
        if tag = coreTag "null" then if isNull text then return none else failure
        else return some text
    | _ => failure

/-- The JSON value of a whole document; none for a document that is empty or null. -/
def toValue? (d : Document) : Option (Option Value) :=
  match d.root with
  | none => some none
  | some n =>
    match n with
    | .scalar tag true text =>
      if tag = some (coreTag "null") then if isNull text then some none else none
      else if tag.isNone && (text.isEmpty || isNull text) then some none
      else (scalarValue tag true text).map some
    | n => ((d.value maxDepth n).run' 0).map some

end Document

end LayeredConfig.Yaml
