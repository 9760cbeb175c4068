import LayeredConfig.Json.Reader

/-!
# JSON pointers

A pointer is a path into a value: the names of members and the indices of items, each behind a slash.
-/

namespace LayeredConfig

namespace Json

/-- The name that a token of a pointer stands for. -/
def pointedName (token : List Char) : List Char :=
  Text.replaceAll ['~', '0'] ['~'] (Text.replaceAll ['~', '1'] ['/'] token)

/-- The index that a name spells, without a sign and without leading zeros. -/
def index? (name : List Char) : Option Nat :=
  if name.isEmpty || !name.all Text.isDigit || (name.head? = some '0' && name.length ≠ 1) then none
  else some (digitsValue name)

end Json

namespace Value

/-- The member or the item that a token of a pointer leads to. -/
def step? (v : Value) (token : List Char) : Option Value :=
  let name := Json.pointedName token
  match v with
  | .object members => Entries.get? (String.ofList name) members
  | .array items => (Json.index? name).bind fun i => items[i]?
  | _ => none

/-- The value that a pointer leads to. -/
def at? (v : Value) (pointer : String) : Option Value :=
  match pointer.toList with
  | [] => some v
  | '/' :: path => (Text.fields '/' path).foldlM step? v
  | _ => none

end Value

end LayeredConfig
