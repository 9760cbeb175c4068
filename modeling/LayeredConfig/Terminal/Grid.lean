import LayeredConfig.Text

/-!
# Grids

A table of texts with its columns aligned.  Escape sequences that colour a cell take no room.
-/

namespace LayeredConfig.Terminal

/-- The character that begins an escape sequence. -/
def escapeChar : Char := '\x1b'

/-- A text without its escape sequences, each of which ends at the next `m`; `inside` tells that one has
begun. -/
def visibleFrom (inside : Bool) : List Char → List Char
  | [] => []
  | c :: s =>
    if inside then visibleFrom (c ≠ 'm') s
    else if c = escapeChar then visibleFrom true s
    else c :: visibleFrom false s

/-- A text without its escape sequences. -/
def visible (s : List Char) : List Char := visibleFrom false s

/-- The side of a column on which its cells stand. -/
inductive Align where
  | left
  | right
  deriving DecidableEq

/-- A column of a grid. -/
structure Column where
  header : List Char
  align : Align

/-- How many characters of a text are seen. -/
def visibleLength (s : List Char) : Nat := (visible s).length

/-- A cell padded to a width. -/
def pad (align : Align) (width : Nat) (s : List Char) : List Char :=
  let padding := List.replicate (width - visibleLength s) ' '
  match align with
  | .left => s ++ padding
  | .right => padding ++ s

/-- The cell of a row in a column; a row may be short. -/
def cell (row : List (List Char)) (column : Nat) : List Char := row[column]?.getD []

/-- The width of a column: that of its widest header or cell. -/
def columnWidth (rows : List (List (List Char))) (column : Nat) (header : List Char) : Nat :=
  rows.foldl (fun width row => max width (visibleLength (cell row column))) (visibleLength header)

/-- The width of each column. -/
def widths (columns : List Column) (rows : List (List (List Char))) : List Nat :=
  columns.mapIdx fun i column => columnWidth rows i column.header

/-- A line behind two blanks. -/
def line (s : List Char) : List Char := ' ' :: ' ' :: (s ++ ['\n'])

/-- Cells padded to their columns and joined by two blanks, without white space at the end. -/
def rowLine (columns : List Column) (widths : List Nat) (cells : List (List Char)) : List Char :=
  let padded := (columns.zip widths).mapIdx fun i (column, width) =>
    pad column.align width (cell cells i)
  line (Text.trimEnd (Text.joinWith [' ', ' '] padded))

/-- The text of a grid: its headers, a rule, and its rows. -/
def grid (columns : List Column) (rows : List (List (List Char))) : List Char :=
  let widths := widths columns rows
  let rule := line (Text.joinWith [' ', ' '] (widths.map fun width => List.replicate width '-'))
  rowLine columns widths (columns.map Column.header) ++ rule ++
    rows.flatMap (rowLine columns widths)

end LayeredConfig.Terminal
