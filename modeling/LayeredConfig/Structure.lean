import LayeredConfig.Key
import LayeredConfig.Node
import LayeredConfig.Properties

/-!
# Structuring

Flat properties become a nested document: a name descends into a map, an index into a list padded with
nulls.  Where a key must descend through a name that holds something else, the rest of the key is kept
as one compound name in the map where it got stuck, so that `x` beside `x.y` gives
`{x: .., "x.y": ..}`.  A subtree displaced by a later scalar is taken apart into the same compound
names.
-/

namespace LayeredConfig.Structure

open Key (Token Segment)

/-- The name that wraps documents whose root is not a map. -/
def documentKey : String := "document"

mutual

/-- Put the leaves of a displaced node back into a map, under compound names that start with `path`. -/
def hoist (m : NodeMap) (path : List Char) : Node → NodeMap
  | .map entries => hoistEntries m path entries
  | .list items => hoistItems m path 0 items
  | .leaf value => m.insert (String.ofList path) (.leaf value)
  | .null => m

/-- Hoist the entries of a map at `path`. -/
def hoistEntries (m : NodeMap) (path : List Char) : List (String × Node) → NodeMap
  | [] => m
  | (k, n) :: rest => hoistEntries (hoist m (path ++ '.' :: k.toList) n) path rest

/-- Hoist list items at `path`, the first of which has the given index. -/
def hoistItems (m : NodeMap) (path : List Char) (index : Nat) : List Node → NodeMap
  | [] => m
  | n :: rest =>
    hoistItems (hoist m (path ++ '[' :: (Nat.toDigits 10 index ++ [']'])) n) path (index + 1) rest

end

/-- Put a scalar under a name; a map or list that is there is hoisted around it. -/
def assign (m : NodeMap) (name : String) (value : Value) : NodeMap :=
  let assigned := m.insert name (.leaf value)
  match m.get? name with
  | some (.map entries) => hoist assigned name.toList (.map entries)
  | some (.list items) => hoist assigned name.toList (.list items)
  | _ => assigned

/-- A list padded with nulls so that it has an element at `index`. -/
def padTo (items : List Node) (index : Nat) : List Node :=
  items ++ List.replicate (index + 1 - items.length) .null

mutual

/-- Insert a value into a map at a name, from which `tokens` lead on.  `remainder` is the text of the key
from the name on. -/
def insertAt (m : NodeMap) (name : String) (remainder : List Char) (value : Value) :
    List Token → Except Key.Problem NodeMap
  | [] => .ok (assign m name value)
  | ⟨.name next, _, text⟩ :: tokens =>
    let m := m.fillVacant name (.map [])
    match m.get? name with
    | some (.map child) =>
      (insertAt child next text value tokens).map fun child => m.insert name (.map child)
    | _ => .ok (m.insert (String.ofList remainder) (.leaf value))
  | ⟨.index i, _, _⟩ :: tokens =>
    let m := m.fillVacant name (.list [])
    match m.get? name with
    | some (.list child) =>
      (insertElement child i value tokens).map fun child => m.insert name (.list child)
    | _ => .ok (m.insert (String.ofList remainder) (.leaf value))

/-- Insert a value into a list at an index, from which `tokens` lead on. -/
def insertElement (items : List Node) (index : Nat) (value : Value) :
    List Token → Except Key.Problem (List Node)
  | [] =>
    let items := padTo items index
    match items[index]? with
    | some (.map _) | some (.list _) => .error (.nestedElement index)
    | _ => .ok (items.set index (.leaf value))
  | ⟨.name next, _, text⟩ :: tokens =>
    let items := padTo items index
    let inserted (child : NodeMap) :=
      (insertAt child next text value tokens).map fun child => items.set index (.map child)
    match items[index]? with
    | some .null => inserted []
    | some (.map child) => inserted child
    | _ => .error (.elementConflict index)
  | ⟨.index i, _, _⟩ :: tokens =>
    let items := padTo items index
    let inserted (child : List Node) :=
      (insertElement child i value tokens).map fun child => items.set index (.list child)
    match items[index]? with
    | some .null => inserted []
    | some (.list child) => inserted child
    | _ => .error (.elementConflict index)

end

/-- Insert a value at a whole key. -/
def insertKey (m : NodeMap) (value : Value) : List Token → Except Key.Problem NodeMap
  | ⟨.name name, _, text⟩ :: tokens => insertAt m name text value tokens
  | _ => .ok m

/-- A key that cannot be read or placed. -/
structure InvalidKey where
  key : String
  problem : Key.Problem
  deriving DecidableEq

/-- The wording of an invalid key. -/
def InvalidKey.message (e : InvalidKey) : String :=
  s!"invalid key: {e.key} ({e.problem.message})"

/-- Insert properties one after another. -/
def insertAll (m : NodeMap) : List (String × Value) → Except InvalidKey NodeMap
  | [] => .ok m
  | (key, value) :: rest =>
    match (Key.parse key).bind (insertKey m value) with
    | .ok m => insertAll m rest
    | .error problem => .error ⟨key, problem⟩

/-- The document of flat properties. -/
def build (flat : Properties) : Except InvalidKey NodeMap := insertAll [] flat.entries

/-- A document without its wrapper: the node and `true` if the map holds nothing but a map, a list or a
scalar under `document`. -/
def withoutWrapper : NodeMap → Node × Bool
  | [(key, node)] =>
    match node with
    | .null => (.map [(key, node)], false)
    | node => if key = documentKey then (node, true) else (.map [(key, node)], false)
  | m => (.map m, false)

/-- The root of the document of flat properties, without its wrapper on request, and whether a wrapper has been
taken off. -/
def buildRoot (strip : Bool) (flat : Properties) : Except InvalidKey (Node × Bool) :=
  (build flat).map fun m => if strip then withoutWrapper m else (.map m, false)

end LayeredConfig.Structure
