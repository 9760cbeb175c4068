import LayeredConfig.Json.Value
import LayeredConfig.Number.Shortest
import LayeredConfig.Text

/-!
# Writing JSON

Two printers of JSON values: `compact` without any space, and `pretty` with one member or item a line
and two spaces for each level.
-/

namespace LayeredConfig

/-- Numbers in JSON have at least one fraction digit up to `10 ^ 16`, and an exponent with its sign from
there on. -/
def jsonNumber : DecimalLayout := ⟨-5, 16, true⟩

/-- The text of a JSON number. -/
def Number.json : Number → List Char
  | .whole n => decimal n.value
  | .float x => x.text jsonNumber

namespace Json

/-- A digit of base sixteen, in lower case. -/
def hexDigit (n : Nat) : Char := Nat.digitChar (n % 16)

/-- One character inside quotes: only quotes, backslashes and control characters are escaped. -/
def escape (c : Char) : List Char :=
  if c = '"' then ['\\', '"']
  else if c = '\\' then ['\\', '\\']
  else if c = '\x08' then ['\\', 'b']
  else if c = '\x0c' then ['\\', 'f']
  else if c = '\n' then ['\\', 'n']
  else if c = '\r' then ['\\', 'r']
  else if c = '\t' then ['\\', 't']
  else if c.toNat < 0x20 then ['\\', 'u', '0', '0', hexDigit (c.toNat / 16), hexDigit c.toNat]
  else [c]

/-- A string between quotes. -/
def quote (s : List Char) : List Char := '"' :: (s.flatMap escape ++ ['"'])

/-- The text of a truth value. -/
def boolText (b : Bool) : List Char := if b then "true".toList else "false".toList

end Json

namespace Value

open Json

mutual

/-- The text of a value without any space. -/
def compact : Value → List Char
  | .null => "null".toList
  | .bool b => boolText b
  | .number n => n.json
  | .string s => quote s.toList
  | .array items => '[' :: (compactItems items ++ [']'])
  | .object members => '{' :: (compactMembers members ++ ['}'])

/-- Items between commas. -/
def compactItems : List Value → List Char
  | [] => []
  | [v] => compact v
  | v :: w :: rest => compact v ++ ',' :: compactItems (w :: rest)

/-- Members between commas. -/
def compactMembers : List (String × Value) → List Char
  | [] => []
  | [(k, v)] => quote k.toList ++ ':' :: compact v
  | (k, v) :: m :: rest => quote k.toList ++ ':' :: (compact v ++ ',' :: compactMembers (m :: rest))

end

/-- A line break and two spaces for each level. -/
def newline (level : Nat) : List Char := '\n' :: List.replicate (2 * level) ' '

mutual

/-- The text of a value at an indentation level, one member or item a line. -/
def prettyAt (level : Nat) : Value → List Char
  | .array (v :: rest) => '[' :: (prettyItems (level + 1) (v :: rest) ++ newline level ++ [']'])
  | .object (m :: rest) => '{' :: (prettyMembers (level + 1) (m :: rest) ++ newline level ++ ['}'])
  | .array [] => "[]".toList
  | .object [] => ['{', '}']
  | .null => "null".toList
  | .bool b => boolText b
  | .number n => n.json
  | .string s => quote s.toList

/-- Items on lines of their own. -/
def prettyItems (level : Nat) : List Value → List Char
  | [] => []
  | [v] => newline level ++ prettyAt level v
  | v :: w :: rest => newline level ++ prettyAt level v ++ ',' :: prettyItems level (w :: rest)

/-- Members on lines of their own. -/
def prettyMembers (level : Nat) : List (String × Value) → List Char
  | [] => []
  | [(k, v)] => newline level ++ quote k.toList ++ ':' :: ' ' :: prettyAt level v
  | (k, v) :: m :: rest =>
    newline level ++ quote k.toList ++ ':' :: ' ' :: (prettyAt level v ++
      ',' :: prettyMembers level (m :: rest))

end

/-- The text of a value with one member or item a line. -/
def pretty (v : Value) : List Char := prettyAt 0 v

end Value

end LayeredConfig
