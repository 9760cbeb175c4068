import LayeredConfig.Yaml.Character

/-!
# Places in a YAML text

A cursor is what is left of a text together with the place at which it starts.
-/

namespace LayeredConfig.Yaml

/-- A place in a text; lines and columns are counted from zero. -/
structure Mark where
  index : Nat := 0
  line : Nat := 0
  column : Nat := 0

namespace Mark

/-- The place behind some characters of a line. -/
def forward (mark : Mark) (count : Nat) : Mark :=
  { mark with index := mark.index + count, column := mark.column + count }

/-- The place behind a line break of the given width. -/
def nextLine (mark : Mark) (width : Nat) : Mark := ⟨mark.index + width, mark.line + 1, 0⟩

end Mark

/-- What is left of a text, and where it starts. -/
structure Cursor where
  rest : List Char
  mark : Mark := {}

/-- What a line break stands for in a scalar: the separators of Unicode for themselves, all others for a line
feed. -/
def breakText (c : Char) : Char := if c = '\u2028' || c = '\u2029' then c else '\n'

namespace Cursor

/-- The column of a cursor. -/
def column (cursor : Cursor) : Nat := cursor.mark.column

/-- Go on behind some characters of the line. -/
def skip (cursor : Cursor) (count : Nat) : Cursor := ⟨cursor.rest.drop count, cursor.mark.forward count⟩

/-- The characters up to the first one that fails a test; no line break may pass it. -/
def span (cursor : Cursor) (p : Char → Bool) : List Char × Cursor :=
  let taken := cursor.rest.takeWhile p
  (taken, cursor.skip taken.length)

/-- Go on behind the characters that pass a test; no line break may pass it. -/
def skipWhile (cursor : Cursor) (p : Char → Bool) : Cursor := (cursor.span p).2

/-- Go on behind a line break, if there is one. -/
def skipBreak (cursor : Cursor) : Cursor :=
  match cursor.rest with
  | '\r' :: '\n' :: s => ⟨s, cursor.mark.nextLine 2⟩
  | c :: s => if isBreak c then ⟨s, cursor.mark.nextLine 1⟩ else cursor
  | [] => cursor

/-- Go on behind the blanks and the comment at the end of a line.  Anything else on the line is an error. -/
def endLine? (cursor : Cursor) : Option Cursor :=
  let cursor := cursor.skipWhile isBlank
  let cursor :=
    if cursor.rest.head? = some '#' then cursor.skipWhile fun c => !isBreak c else cursor
  if cursor.rest.head?.all isBreak then some cursor.skipBreak else none

end Cursor

end LayeredConfig.Yaml
