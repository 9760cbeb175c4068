import LayeredConfig.Text
import LayeredConfig.Yaml.Cursor

/-!
# Block scalars

Scalars that are set off by their indentation, literal `|` or folded `>`.
-/

namespace LayeredConfig.Yaml

/-- What becomes of the line breaks at the end of a block scalar. -/
inductive Chomp where
  | strip
  | clip
  | keep
  deriving DecidableEq

/-- What the first line of a block scalar says. -/
structure BlockHeader where
  folded : Bool
  chomp : Chomp := .clip
  /-- How far the lines are indented, if that is said. -/
  increment : Option Nat := none

namespace BlockHeader

/-- The indicator of how a scalar ends. -/
def chomp? (c : Char) : Option Chomp :=
  if c = '+' then some .keep else if c = '-' then some .strip else none

/-- Read the indicators behind `|` or `>`, each of which may be left out, in either order. -/
def read? (folded : Bool) (cursor : Cursor) : Option (BlockHeader × Cursor) :=
  let marks := cursor.rest.takeWhile fun c => (chomp? c).isSome || Text.isDigit c
  match marks with
  | [] => some ({ folded }, cursor)
  | c :: more =>
    match chomp? c, more with
    | some chomp, d :: _ =>
      if !Text.isDigit d then some ({ folded, chomp }, cursor.skip 1)
      else if d = '0' then none
      else some ({ folded, chomp, increment := some (d.toNat - '0'.toNat) }, cursor.skip 2)
    | some chomp, [] => some ({ folded, chomp }, cursor.skip 1)
    | none, _ =>
      if c = '0' then none
      else
        let increment := some (c.toNat - '0'.toNat)
        match more.head?.bind chomp? with
        | some chomp => some ({ folded, chomp, increment }, cursor.skip 2)
        | none => some ({ folded, increment }, cursor.skip 1)

end BlockHeader

/-- A block scalar while it is read. -/
structure BlockText where
  header : BlockHeader
  /-- The column of its lines, once it is known. -/
  indent : Option Nat
  /-- The widest line of spaces while it is not known. -/
  widest : Nat := 0
  /-- What has been read, last character first. -/
  text : List Char := []
  /-- The line break behind the last line with text. -/
  first : Option Char := none
  /-- The line breaks of the empty lines behind it, last one first. -/
  further : List Char := []
  /-- Whether the last line with text begins with a blank. -/
  leadingBlank : Bool := false
  /-- Whether a line with text is being read. -/
  inLine : Bool := false

namespace BlockText

/-- Read a line break. -/
def lineBreak (b : BlockText) (column : Nat) (c : Char) : BlockText :=
  if b.inLine then { b with inLine := false, first := some (breakText c), further := [] }
  else { b with widest := max b.widest column, further := breakText c :: b.further }

/-- The line breaks between two lines with text, last one first.  In a folded scalar a break between two lines
that do not begin with blanks is folded. -/
def between (b : BlockText) (blankAhead : Bool) : List Char :=
  if b.header.folded && b.first = some '\n' && !b.leadingBlank && !blankAhead then
    if b.further.isEmpty then [' '] else b.further
  else b.further ++ b.first.toList

/-- Read the first character of a line with text. -/
def beginLine (b : BlockText) (indent : Nat) (c : Char) : BlockText :=
  { b with
    indent := some indent
    text := c :: (b.between (isBlank c) ++ b.text)
    first := none
    further := []
    leadingBlank := isBlank c
    inLine := true }

/-- The text of a scalar that has ended. -/
def finished (b : BlockText) : String :=
  let ending :=
    match b.header.chomp with
    | .strip => []
    | .clip => b.first.toList
    | .keep => b.further ++ b.first.toList
  String.ofList (ending ++ b.text).reverse

/-- Read the rest of a scalar whose lines are indented by `least` columns at least. -/
def readFrom (least : Nat) (mark : Mark) (b : BlockText) : List Char → Option (String × Cursor)
  | [] => some (b.finished, ⟨[], mark⟩)
  | '\r' :: '\n' :: s => readFrom least (mark.nextLine 2) (b.lineBreak mark.column '\n') s
  | c :: s =>
    if isBreak c then readFrom least (mark.nextLine 1) (b.lineBreak mark.column c) s
    else if b.inLine then readFrom least (mark.forward 1) { b with text := c :: b.text } s
    else
      let indenting := b.indent.all (mark.column < ·)
      if c = ' ' && indenting then readFrom least (mark.forward 1) b s
      else if c = '\t' && indenting then none
      else
        let indent := b.indent.getD (max (max b.widest mark.column) (max least 1))
        if mark.column = indent then readFrom least (mark.forward 1) (b.beginLine indent c) s
        else some (b.finished, ⟨c :: s, mark⟩)

/-- The block scalar whose indicator is at a cursor, within lines indented by `outer` columns, or -1 at the
top. -/
def read? (outer : Int) (cursor : Cursor) : Option (String × Cursor) := do
  let (header, cursor) ← BlockHeader.read? (cursor.rest.head? = some '>') (cursor.skip 1)
  let cursor ← cursor.endLine?
  let indent := header.increment.map fun n => (max outer 0).toNat + n
  readFrom (outer + 1).toNat cursor.mark { header, indent } cursor.rest

end BlockText

end LayeredConfig.Yaml
