import LayeredConfig.Json.Value

/-!
# Document nodes

The tree that properties are structured into.  A node map keeps its entries in the order of insertion;
its operations find an entry by its position, and replacing an entry keeps that position.
-/

namespace LayeredConfig

/-- A node of a nested document. -/
inductive Node where
  | map (entries : List (String × Node))
  | list (items : List Node)
  | leaf (value : Value)
  /-- A list slot below the highest one assigned. -/
  | null

/-- Nodes under distinct names, in the order of insertion. -/
abbrev NodeMap := List (String × Node)

namespace NodeMap

/-- The position of the entry under a name. -/
def position? (m : NodeMap) (key : String) : Option Nat := m.findIdx? fun e => e.1 = key

/-- The node under a name. -/
def get? (m : NodeMap) (key : String) : Option Node := do
  let i ← m.position? key
  let entry ← m[i]?
  return entry.2

/-- Put a node under a name, in place of the one that is there or else behind all others. -/
def insert (m : NodeMap) (key : String) (node : Node) : NodeMap :=
  match m.position? key with
  | some i => m.set i (key, node)
  | none => m ++ [(key, node)]

/-- Replace the node under a name that is present; `none` when it is absent. -/
def assign? (m : NodeMap) (key : String) (node : Node) : Option NodeMap :=
  (m.position? key).map fun i => m.set i (key, node)

/-- Put a node under a name that is absent or holds a null. -/
def fillVacant (m : NodeMap) (key : String) (node : Node) : NodeMap :=
  match m.get? key with
  | none | some .null => m.insert key node
  | some _ => m

end NodeMap

namespace Node

mutual

/-- The JSON value of a node, with map entries in order. -/
def toValue : Node → Value
  | .map entries => .object (entriesToValues entries)
  | .list items => .array (itemsToValues items)
  | .leaf value => value
  | .null => .null

/-- The values of list items. -/
def itemsToValues : List Node → List Value
  | [] => []
  | n :: rest => toValue n :: itemsToValues rest

/-- The values of map entries. -/
def entriesToValues : List (String × Node) → List (String × Value)
  | [] => []
  | (k, n) :: rest => (k, toValue n) :: entriesToValues rest

end

mutual

/-- The node of a JSON value: objects and arrays become maps and lists. -/
def ofValue : Value → Node
  | .object members => .map (entriesOfValues members)
  | .array items => .list (itemsOfValues items)
  | .null => .null
  | value => .leaf value

/-- The nodes of array items. -/
def itemsOfValues : List Value → List Node
  | [] => []
  | v :: rest => ofValue v :: itemsOfValues rest

/-- The nodes of object members. -/
def entriesOfValues : List (String × Value) → List (String × Node)
  | [] => []
  | (k, v) :: rest => (k, ofValue v) :: entriesOfValues rest

end

mutual

/-- Equality of nodes: maps agree entry by entry in order, leaves agree as values. -/
def agrees : Node → Node → Bool
  | .map xs, .map ys => entriesAgree xs ys
  | .list xs, .list ys => itemsAgree xs ys
  | .leaf v, .leaf w => v.agrees w
  | .null, .null => true
  | _, _ => false

/-- Agreement of two lists of nodes. -/
def itemsAgree : List Node → List Node → Bool
  | [], [] => true
  | x :: xs, y :: ys => agrees x y && itemsAgree xs ys
  | _, _ => false

/-- Agreement of two lists of entries. -/
def entriesAgree : List (String × Node) → List (String × Node) → Bool
  | [], [] => true
  | (k, x) :: xs, (l, y) :: ys => k = l && agrees x y && entriesAgree xs ys
  | _, _ => false

end

/-- The entries of a map node. -/
def map? : Node → Option NodeMap
  | .map entries => some entries
  | _ => none

end Node

end LayeredConfig
