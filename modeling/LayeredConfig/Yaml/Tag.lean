import LayeredConfig.Json.Reader
import LayeredConfig.Text
import LayeredConfig.Yaml.Cursor

/-!
# Tags, anchors and directives

The properties that a node may have in front of its content, and the directives in front of a document.
-/

namespace LayeredConfig.Yaml

/-- The name behind the indicator of an anchor or an alias. -/
def anchorName? (cursor : Cursor) : Option (String × Cursor) :=
  let (name, after) := (cursor.skip 1).span isWordChar
  let ends := gapFollows after.rest ||
    after.rest.head?.any fun c =>
      c = '?' || c = ':' || c = ',' || c = ']' || c = '}' || c = '%' || c = '@' || c = '\x60'
  if name.isEmpty || !ends then none else some (String.ofList name, after)

/-- A tag as it is written: a handle that stands for the start of the tag, and the rest of it. -/
structure RawTag where
  handle : String
  suffix : String
  deriving DecidableEq

namespace RawTag

/-- Characters of a tag besides escapes. -/
def isTagChar (c : Char) : Bool :=
  isWordChar c || c = ';' || c = '/' || c = '?' || c = ':' || c = '@' || c = '&' || c = '=' ||
    c = '+' || c = '$' || c = '.' || c = '!' || c = '~' || c = '*' || c = '\'' || c = '(' || c = ')'

/-- Characters that only tags in angle brackets and directives may hold. -/
def isBracketChar (c : Char) : Bool := c = ',' || c = '[' || c = ']'

/-- The byte of a percent escape. -/
def escapedByte? : List Char → Option Nat
  | '%' :: high :: low :: _ => do
    let high ← Json.hexValue? high
    let low ← Json.hexValue? low
    return 16 * high + low
  | _ => none

/-- How many bytes follow a leading byte of UTF-8. -/
def bytesBehind? (byte : Nat) : Option Nat :=
  if byte < 0x80 then some 0
  else if byte < 0xc0 then none
  else if byte < 0xe0 then some 1
  else if byte < 0xf0 then some 2
  else if byte < 0xf8 then some 3
  else none

/-- Characters of a tag up to the first one that cannot belong to it, each escaped byte as a character of its
own.  `missing` more bytes of an escaped character must follow, and `skip` characters have been taken by an
escape. -/
def charsFrom (brackets : Bool) (missing skip : Nat) : List Char → Option (List Char × Nat)
  | [] => if missing = 0 then some ([], 0) else none
  | c :: s =>
    match skip with
    | skip + 1 => (charsFrom brackets missing skip s).map fun (chars, count) => (chars, count + 1)
    | 0 =>
      if c = '%' then do
        let byte ← escapedByte? (c :: s)
        let missing ←
          match missing with
          | 0 => bytesBehind? byte
          | more + 1 => if 0x80 ≤ byte && byte < 0xc0 then some more else none
        let (chars, count) ← charsFrom brackets missing 2 s
        return (Char.ofNat byte :: chars, count + 1)
      else if missing ≠ 0 then none
      else if isTagChar c || (brackets && isBracketChar c) then
        (charsFrom brackets 0 0 s).map fun (chars, count) => (c :: chars, count + 1)
      else some ([], 0)

/-- The characters of a tag at a cursor. -/
def chars? (brackets : Bool) (cursor : Cursor) : Option (List Char × Cursor) :=
  (charsFrom brackets 0 0 cursor.rest).map fun (chars, count) => (chars, cursor.skip count)

/-- The handle at a cursor, with its exclamation marks. -/
def handleAt (cursor : Cursor) : List Char × Cursor :=
  let (name, after) := (cursor.skip 1).span isWordChar
  if after.rest.head? = some '!' then ('!' :: (name ++ ['!']), after.skip 1) else ('!' :: name, after)

/-- Whether text in angle brackets follows the exclamation mark at a cursor. -/
def isVerbatim : List Char → Bool
  | '!' :: '<' :: _ => true
  | _ => false

/-- The tag in angle brackets at a cursor. -/
def verbatim? (cursor : Cursor) : Option (RawTag × Cursor) := do
  let (chars, after) ← chars? true (cursor.skip 2)
  if chars.isEmpty || after.rest.head? ≠ some '>' then none
  return (⟨"", String.ofList chars⟩, after.skip 1)

/-- The tag with a handle at a cursor.  A tag that is nothing but an exclamation mark has no handle. -/
def shorthand? (cursor : Cursor) : Option (RawTag × Cursor) := do
  let (handle, after) := handleAt cursor
  let (chars, after) ← chars? false after
  if handle.length ≠ 1 && handle.getLast? = some '!' then
    if chars.isEmpty then none else return (⟨String.ofList handle, String.ofList chars⟩, after)
  else
    let suffix := handle.tail ++ chars
    if suffix.isEmpty then return (⟨"", "!"⟩, after) else return (⟨"!", String.ofList suffix⟩, after)

/-- The tag at a cursor.  It must be set apart from what follows; in a flow collection a comma may follow. -/
def read? (inFlow : Bool) (cursor : Cursor) : Option (RawTag × Cursor) := do
  let (tag, after) ← if isVerbatim cursor.rest then verbatim? cursor else shorthand? cursor
  if gapFollows after.rest || (inFlow && after.rest.head? = some ',') then return (tag, after) else none

end RawTag

/-- A line in front of a document. -/
inductive Directive where
  | version (major minor : Nat)
  /-- What a handle of tags stands for. -/
  | meaning (handle start : String)
  deriving DecidableEq

namespace Directive

/-- A part of a version number, of nine digits at most. -/
def number? (cursor : Cursor) : Option (Nat × Cursor) :=
  let (digits, after) := cursor.span Text.isDigit
  if digits.isEmpty || 9 < digits.length then none else some (Json.digitsValue digits, after)

/-- The version behind the name of its directive. -/
def version? (cursor : Cursor) : Option (Directive × Cursor) := do
  let (major, cursor) ← number? (cursor.skipWhile isBlank)
  if cursor.rest.head? ≠ some '.' then none
  let (minor, cursor) ← number? (cursor.skip 1)
  return (.version major minor, cursor)

/-- The handle and its meaning behind the name of their directive. -/
def meaning? (cursor : Cursor) : Option (Directive × Cursor) := do
  let cursor := cursor.skipWhile isBlank
  if cursor.rest.head? ≠ some '!' then none
  let (handle, cursor) := RawTag.handleAt cursor
  if handle.getLast? ≠ some '!' || !cursor.rest.head?.any isBlank then none
  let (chars, cursor) ← RawTag.chars? true (cursor.skipWhile isBlank)
  if chars.isEmpty || !gapFollows cursor.rest then none
  return (.meaning (String.ofList handle) (String.ofList chars), cursor)

/-- The directive at a cursor. -/
def read? (cursor : Cursor) : Option (Directive × Cursor) := do
  let (name, cursor) := (cursor.skip 1).span isWordChar
  if !gapFollows cursor.rest then none
  let (directive, cursor) ←
    match String.ofList name with
    | "YAML" => version? cursor
    | "TAG" => meaning? cursor
    | _ => none
  return (directive, ← cursor.endLine?)

end Directive

end LayeredConfig.Yaml
