import LayeredConfig.Yaml.BlockText
import LayeredConfig.Yaml.FlowText
import LayeredConfig.Yaml.Tag

/-!
# Tokens

A YAML text as a list of tokens.  Indentation becomes tokens too: block collections start where a column is
indented further than those around it, and end where a line is indented less.  The key of a mapping is
known as such only at the colon behind it, so the tokens in front of it are put in place at that point.
-/

namespace LayeredConfig.Yaml

/-- A token of YAML. -/
inductive Token where
  | directive (d : Directive)
  | documentStart
  | documentEnd
  | blockSequenceStart
  | blockMappingStart
  | blockEnd
  | flowSequenceStart
  | flowSequenceEnd
  | flowMappingStart
  | flowMappingEnd
  | blockEntry
  | flowEntry
  | key
  | value
  | alias (name : String)
  | anchor (name : String)
  | tag (t : RawTag)
  | scalar (isPlain : Bool) (text : String)
  deriving DecidableEq

/-- A place where the key of a mapping may begin that is not marked as one. -/
structure PendingKey where
  /-- How many tokens come before it. -/
  position : Nat
  mark : Mark
  /-- A line of a block mapping must have a key. -/
  required : Bool

/-- A key stands on one line and takes no more than 1024 characters. -/
def PendingKey.isStale (key : PendingKey) (mark : Mark) : Bool :=
  key.mark.line < mark.line || key.mark.index + 1024 < mark.index

/-- The tokens of a text up to a cursor. -/
structure Scanner where
  cursor : Cursor
  /-- The column of the innermost block collection, -1 at the top. -/
  indent : Int := -1
  /-- The columns of the collections around it, innermost first. -/
  outerIndents : List Int := []
  /-- Whether a key may begin at the cursor. -/
  keyAllowed : Bool := true
  /-- The key that may have begun in the innermost flow collection. -/
  pending : Option PendingKey := none
  /-- The keys that may have begun around the flow collections, innermost first. -/
  outerPending : List (Option PendingKey) := []
  /-- The tokens so far, last one first. -/
  tokens : List Token := []
  /-- The number of tokens so far. -/
  count : Nat := 0

namespace Scanner

/-- Whether the cursor is in a flow collection. -/
def inFlow (s : Scanner) : Bool := !s.outerPending.isEmpty

/-- Add a token. -/
def push (s : Scanner) (t : Token) : Scanner := { s with tokens := t :: s.tokens, count := s.count + 1 }

/-- Add a token behind the first `position` tokens. -/
def insertAt (s : Scanner) (position : Nat) (t : Token) : Scanner :=
  let behind := s.count - position
  { s with
    tokens := s.tokens.take behind ++ t :: s.tokens.drop behind
    count := s.count + 1 }

/-- Go on behind an indicator, which is a token. -/
def indicator (s : Scanner) (t : Token) : Scanner := { s.push t with cursor := s.cursor.skip 1 }

/-- No key has begun after all, unless one is required. -/
def dropKey? (s : Scanner) : Option Scanner :=
  if s.pending.any PendingKey.required then none else some { s with pending := none }

/-- A key may begin at the cursor, if one is allowed there. -/
def mayBeginKey? (s : Scanner) : Option Scanner :=
  if s.keyAllowed then do
    let s ← s.dropKey?
    let required := !s.inFlow && s.indent = s.cursor.column
    return { s with pending := some ⟨s.count, s.cursor.mark, required⟩ }
  else some s

/-- A pending key at a place of the text; a stale one is dropped unless it is required. -/
def fresh? (mark : Mark) : Option PendingKey → Option (Option PendingKey)
  | none => some none
  | some key => if !key.isStale mark then some (some key) else if key.required then none else some none

/-- Drop the stale keys. -/
def dropStale? (s : Scanner) : Option Scanner := do
  let pending ← fresh? s.cursor.mark s.pending
  let outerPending ← s.outerPending.mapM (fresh? s.cursor.mark)
  return { s with pending, outerPending }

/-- How many of the open collections are indented further than a column, and the columns that remain. -/
def closing (column indent : Int) : List Int → Nat × Int × List Int
  | [] => (0, indent, [])
  | outer :: rest =>
    if column < indent then
      let (count, remaining) := closing column outer rest
      (count + 1, remaining)
    else (0, indent, outer :: rest)

/-- End the block collections that are indented further than a column. -/
def closeTo (s : Scanner) (column : Int) : Scanner :=
  if s.inFlow then s
  else
    let (count, indent, outerIndents) := closing column s.indent s.outerIndents
    { s with
      indent
      outerIndents
      tokens := List.replicate count .blockEnd ++ s.tokens
      count := s.count + count }

/-- Start a block collection behind the first `position` tokens, unless one is open at its column. -/
def openAt (s : Scanner) (column position : Nat) (t : Token) : Scanner :=
  if !s.inFlow && s.indent < column then
    { s.insertAt position t with indent := column, outerIndents := s.indent :: s.outerIndents }
  else s

/-- What follows white space and comments, and whether a key may begin there.  A line break allows a key,
except in flow collections; where a key may begin, a tab is no white space outside them. -/
def spaceFrom (inFlow inComment keyAllowed : Bool) (mark : Mark) : List Char → Bool × Cursor
  | [] => (keyAllowed, ⟨[], mark⟩)
  | '\r' :: '\n' :: s => spaceFrom inFlow false (keyAllowed || !inFlow) (mark.nextLine 2) s
  | c :: s =>
    if isBreak c then spaceFrom inFlow false (keyAllowed || !inFlow) (mark.nextLine 1) s
    else if inComment then spaceFrom inFlow true keyAllowed (mark.forward 1) s
    else if c = ' ' || (c = '\t' && (inFlow || !keyAllowed)) || (c = '\ufeff' && mark.index = 0) then
      spaceFrom inFlow false keyAllowed (mark.forward 1) s
    else if c = '#' then spaceFrom inFlow true keyAllowed (mark.forward 1) s
    else (keyAllowed, ⟨c :: s, mark⟩)

/-- Go on to the next token, behind white space and comments. -/
def skipSpace (s : Scanner) : Scanner :=
  let (keyAllowed, cursor) := spaceFrom s.inFlow false s.keyAllowed s.cursor.mark s.cursor.rest
  { s with keyAllowed, cursor }

/-- A line at the first column that is no content of the document. -/
def marker? (s : Scanner) (read : Scanner → Option (Token × Cursor)) : Option Scanner := do
  let s ← (s.closeTo (-1)).dropKey?
  let (t, cursor) ← read s
  return { s.push t with cursor, keyAllowed := false }

/-- Part of a node that a key may begin with. -/
def part? (s : Scanner) (read : Scanner → Option (Token × Cursor)) : Option Scanner := do
  let s ← s.mayBeginKey?
  let (t, cursor) ← read s
  return { s.push t with cursor, keyAllowed := false }

/-- The start of a flow collection. -/
def flowStart? (s : Scanner) (t : Token) : Option Scanner := do
  let s ← s.mayBeginKey?
  return { s.indicator t with
    outerPending := s.pending :: s.outerPending
    pending := none
    keyAllowed := true }

/-- The end of a flow collection. -/
def flowEnd? (s : Scanner) (t : Token) : Option Scanner := do
  let s := { (← s.dropKey?).indicator t with keyAllowed := false }
  match s.outerPending with
  | [] => return s
  | pending :: outerPending => return { s with pending, outerPending }

/-- The comma of a flow collection. -/
def flowEntry? (s : Scanner) : Option Scanner := do
  return { (← s.dropKey?).indicator .flowEntry with keyAllowed := true }

/-- Start a block collection at the cursor.  Outside flow collections it must be allowed there. -/
def openHere? (s : Scanner) (t : Token) : Option Scanner :=
  if !s.inFlow && !s.keyAllowed then none else some (s.openAt s.cursor.column s.count t)

/-- The dash of a list item. -/
def blockEntry? (s : Scanner) : Option Scanner := do
  let s ← (← s.openHere? .blockSequenceStart).dropKey?
  return { s.indicator .blockEntry with keyAllowed := true }

/-- The question mark of a key. -/
def key? (s : Scanner) : Option Scanner := do
  let s ← (← s.openHere? .blockMappingStart).dropKey?
  return { s.indicator .key with keyAllowed := !s.inFlow }

/-- The colon of a value.  It makes a key of what is pending. -/
def value? (s : Scanner) : Option Scanner :=
  match s.pending with
  | some key =>
    let s := (s.insertAt key.position .key).openAt key.mark.column key.position .blockMappingStart
    some { s.indicator .value with pending := none, keyAllowed := false }
  | none => do
    let s ← s.openHere? .blockMappingStart
    return { s.indicator .value with keyAllowed := !s.inFlow }

/-- The token of a plain scalar.  Behind a line break a key may begin again. -/
def plain? (s : Scanner) : Option Scanner := do
  let s ← s.mayBeginKey?
  let scalar ← FlowText.plain? s.inFlow (s.indent + 1) s.cursor
  return { s.push (.scalar true scalar.text) with
    cursor := scalar.after, keyAllowed := scalar.endsLine }

/-- The token of a block scalar. -/
def block? (s : Scanner) : Option Scanner := do
  let s ← s.dropKey?
  let (text, cursor) ← BlockText.read? s.indent s.cursor
  return { s.push (.scalar false text) with cursor, keyAllowed := true }

/-- Whether a plain scalar starts with a character that `rest` follows. -/
def startsPlain (inFlow : Bool) (c : Char) (rest : List Char) : Bool :=
  if c = '-' then !rest.head?.any isBlank
  else if c = '?' || c = ':' then !inFlow && !gapFollows rest
  else !isIndicator c && !isGap c

/-- Read the next token, which begins with the character `c` at the cursor. -/
def token? (s : Scanner) (c : Char) (rest : List Char) : Option Scanner :=
  let gap := gapFollows rest
  if s.cursor.column = 0 && c = '%' then
    s.marker? fun s => (Directive.read? s.cursor).map fun (d, cursor) => (.directive d, cursor)
  else if s.cursor.column = 0 && isDocumentMark (c :: rest) then
    s.marker? fun s =>
      some (if c = '-' then .documentStart else .documentEnd, s.cursor.skip 3)
  else if c = '[' then s.flowStart? .flowSequenceStart
  else if c = '{' then s.flowStart? .flowMappingStart
  else if c = ']' then s.flowEnd? .flowSequenceEnd
  else if c = '}' then s.flowEnd? .flowMappingEnd
  else if c = ',' then s.flowEntry?
  else if c = '-' && gap then s.blockEntry?
  else if c = '?' && (s.inFlow || gap) then s.key?
  else if c = ':' && (s.inFlow || gap) then s.value?
  else if c = '*' then
    s.part? fun s => (anchorName? s.cursor).map fun (name, cursor) => (.alias name, cursor)
  else if c = '&' then
    s.part? fun s => (anchorName? s.cursor).map fun (name, cursor) => (.anchor name, cursor)
  else if c = '!' then
    s.part? fun s => (RawTag.read? s.inFlow s.cursor).map fun (t, cursor) => (.tag t, cursor)
  else if (c = '|' || c = '>') && !s.inFlow then s.block?
  else if c = '\'' || c = '"' then
    s.part? fun s => (FlowText.quoted? s.cursor).map fun t => (.scalar false t.text, t.after)
  else if startsPlain s.inFlow c rest then s.plain?
  else none

/-- The tokens of a text that has come to its end. -/
def finish? (s : Scanner) : Option (List Token) := do
  let s ← (s.closeTo (-1)).dropKey?
  return s.tokens.reverse

/-- Read on to the end of the text in at most `fuel` steps; each step takes at least one character. -/
def run? : Nat → Scanner → Option (List Token)
  | 0, _ => none
  | fuel + 1, s => do
    let s ← s.skipSpace.dropStale?
    let s := s.closeTo s.cursor.column
    match s.cursor.rest with
    | [] => s.finish?
    | c :: rest => run? fuel (← s.token? c rest)

end Scanner

/-- The tokens of a text. -/
def Token.list? (text : List Char) : Option (List Token) :=
  if text.all isAllowed then Scanner.run? (text.length + 1) { cursor := ⟨text, {}⟩ } else none

end LayeredConfig.Yaml
