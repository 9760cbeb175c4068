import LayeredConfig.Structure

/-!
# Flattening

A nested document as flat properties: each scalar under its path, where names follow a point and indices
stand in brackets.  Empty maps and lists leave nothing.
-/

namespace LayeredConfig

namespace Value

mutual

/-- The scalars of a value with their paths, which start with `path`. -/
def leaves (path : List Char) : Value → List (List Char × Value)
  | .object members => memberLeaves path members
  | .array items => itemLeaves path 0 items
  | .null => [(path, .null)]
  | .bool b => [(path, .bool b)]
  | .number n => [(path, .number n)]
  | .string s => [(path, .string s)]

/-- The scalars of the members of an object at `path`. -/
def memberLeaves (path : List Char) : List (String × Value) → List (List Char × Value)
  | [] => []
  | (k, v) :: rest => leaves (path ++ '.' :: k.toList) v ++ memberLeaves path rest

/-- The scalars of array items at `path`, the first of which has the given index. -/
def itemLeaves (path : List Char) (index : Nat) : List Value → List (List Char × Value)
  | [] => []
  | v :: rest =>
    leaves (path ++ '[' :: (Nat.toDigits 10 index ++ [']'])) v ++ itemLeaves path (index + 1) rest

end

/-- The scalars of a whole document with their paths; a root that is neither a map nor null stands under
`document`. -/
def documentLeaves : Value → List (List Char × Value)
  | .object members => members.flatMap fun m => leaves m.1.toList m.2
  | .null => []
  | root => leaves Structure.documentKey.toList root

/-- The flat properties of a document. -/
def flatten (document : Value) : Properties :=
  OrderedMap.ofList (document.documentLeaves.map fun leaf => (String.ofList leaf.1, leaf.2))

end Value

end LayeredConfig
