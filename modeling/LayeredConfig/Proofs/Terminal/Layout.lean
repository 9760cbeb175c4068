import LayeredConfig.Proofs.Terminal.Visible
import Mathlib.Order.Bounds.Basic

/-!
# The layout of a grid

A grid pads its cells by what is seen of them and trims its lines as they are, with the escape sequences in them.
A reader sees the layout of the plain texts all the same: every column is as wide as the widest text that is seen in
it, and every cell stands on the side of its column.

* `isGreatest_columnWidth` — the width of a column.
* `visible_pad`, `visible_padded` — padding is seen as padding of what is seen.
* `grid_eq`, `fields_grid`, `fields_visible_grid` — a grid as its lines.
* `map_texts_eq` — what is seen of each line.
* `grid_layout` — the layout of a grid, which is that of the grid of what is seen of its texts.
-/

namespace LayeredConfig.Terminal

variable {columns : List Column} {rows : List (List (List Char))} {cells : List (List Char)} {s : List Char} {c : Char}

/-! ## The width of a column -/

/-- The texts that stand in a column: its header and the cells of the rows that reach it. -/
def columnTexts (rows : List (List (List Char))) (i : Nat) (header : List Char) : Set (List Char) :=
  {s | s = header ∨ ∃ row ∈ rows, row[i]? = some s}

theorem columnWidth_cons (row : List (List Char)) (rows : List (List (List Char))) (i : Nat) (header : List Char) :
    columnWidth (row :: rows) i header = max (visibleLength (cell row i)) (columnWidth rows i header) := by
  unfold columnWidth
  rw [List.foldl_cons]
  generalize visibleLength header = width
  induction rows generalizing width with
  | nil => exact max_comm _ _
  | cons next rows ih =>
      rw [List.foldl_cons, List.foldl_cons, Nat.max_right_comm]
      exact ih _

/-- A column is as wide as the widest text that is seen in it; a missing cell does not widen it. -/
theorem isGreatest_columnWidth (rows : List (List (List Char))) (i : Nat) (header : List Char) :
    IsGreatest (visibleLength '' columnTexts rows i header) (columnWidth rows i header) := by
  induction rows with
  | nil =>
      have htexts : columnTexts [] i header = {header} := by simp [columnTexts]
      rw [htexts, Set.image_singleton]
      exact isGreatest_singleton
  | cons row rows ih =>
      rw [columnWidth_cons]
      cases hcell : row[i]? with
      | none =>
          have htexts : columnTexts (row :: rows) i header = columnTexts rows i header := by
            simp [columnTexts, hcell]
          have hempty : visibleLength (cell row i) = 0 := by
            simp [cell, hcell, visibleLength, visible, visibleFrom]
          rwa [htexts, hempty, Nat.zero_max]
      | some s =>
          have htexts : columnTexts (row :: rows) i header = insert s (columnTexts rows i header) := by
            ext t
            simp only [columnTexts, List.exists_mem_cons_iff, hcell, Option.some.injEq, Set.mem_insert_iff,
              Set.mem_ofPred_eq]
            tauto
          have hlength : visibleLength (cell row i) = visibleLength s := by simp [cell, hcell]
          rw [htexts, hlength, Set.image_insert_eq]
          exact ih.insert _

/-- The width of a column by its position. -/
def widthAt (columns : List Column) (rows : List (List (List Char))) (i : Nat) : Nat :=
  (widths columns rows)[i]?.getD 0

theorem widthAt_of_getElem? {column : Column} {i : Nat} (h : columns[i]? = some column) :
    widthAt columns rows i = columnWidth rows i column.header := by
  simp [widthAt, widths, h]

/-! ## Cells -/

/-- A cell that is missing is empty. -/
theorem closed_cell (h : ∀ s ∈ cells, Closed s) (i : Nat) : Closed (cell cells i) := by
  unfold cell
  cases hcell : cells[i]? with
  | none => exact closed_nil
  | some s => exact h s (List.mem_of_getElem? hcell)

theorem mem_of_mem_cell {i : Nat} (h : c ∈ cell cells i) : ∃ s ∈ cells, c ∈ s := by
  unfold cell at h
  cases hcell : cells[i]? with
  | none => simp [hcell] at h
  | some s => exact ⟨s, List.mem_of_getElem? hcell, by simpa [hcell] using h⟩

theorem visible_cell (cells : List (List Char)) (i : Nat) :
    visible (cell cells i) = cell (cells.map visible) i := by
  unfold cell
  rw [List.getElem?_map]
  cases cells[i]? <;> rfl

/-- A text on one side of a field of blanks. -/
def Align.place (align : Align) (width : Nat) (s : List Char) : List Char :=
  match align with
  | .left => s.rightpad width ' '
  | .right => s.leftpad width ' '

theorem closed_blanks (n : Nat) : Closed (List.replicate n ' ') :=
  closed_of_not_mem fun h => absurd (List.eq_of_mem_replicate h) (by decide)

theorem visible_blanks (n : Nat) : visible (List.replicate n ' ') = List.replicate n ' ' :=
  visible_eq_self fun h => absurd (List.eq_of_mem_replicate h) (by decide)

theorem closed_pad (align : Align) (width : Nat) (hs : Closed s) : Closed (pad align width s) := by
  cases align with
  | left => exact hs.append (closed_blanks _)
  | right => exact (closed_blanks _).append hs

theorem mem_pad {align : Align} {width : Nat} (h : c ∈ pad align width s) : c = ' ' ∨ c ∈ s := by
  cases align with
  | left => exact (List.mem_append.1 h).symm.imp_left List.eq_of_mem_replicate
  | right => exact (List.mem_append.1 h).imp_left List.eq_of_mem_replicate

/-- Padding is seen as padding of what is seen. -/
theorem visible_pad (align : Align) (width : Nat) (hs : Closed s) :
    visible (pad align width s) = align.place width (visible s) := by
  cases align with
  | left => rw [pad, hs.visible_append, visible_blanks, Align.place, List.rightpad, visibleLength]
  | right => rw [pad, (closed_blanks _).visible_append, visible_blanks, Align.place, List.leftpad, visibleLength]

/-- The cells of a line, each of them padded to its column. -/
def padded (columns : List Column) (widths : List Nat) (cells : List (List Char)) : List (List Char) :=
  (columns.zip widths).mapIdx fun i (column, width) => pad column.align width (cell cells i)

theorem closed_of_mem_padded {widths : List Nat} (hcells : ∀ s ∈ cells, Closed s) :
    ∀ part ∈ padded columns widths cells, Closed part := by
  intro part hpart
  obtain ⟨i, hi, rfl⟩ := List.mem_mapIdx.1 hpart
  exact closed_pad _ _ (closed_cell hcells i)

theorem mem_of_mem_padded {widths : List Nat} {part : List Char} (hpart : part ∈ padded columns widths cells)
    (hc : c ∈ part) : c = ' ' ∨ ∃ s ∈ cells, c ∈ s := by
  obtain ⟨i, hi, rfl⟩ := List.mem_mapIdx.1 hpart
  exact (mem_pad hc).imp_right mem_of_mem_cell

/-- The padded cells of a line are seen as the plain cells placed in their columns. -/
theorem visible_padded (rows : List (List (List Char))) (hcells : ∀ s ∈ cells, Closed s) :
    (padded columns (widths columns rows) cells).map visible =
      columns.mapIdx fun i column => column.align.place (widthAt columns rows i) (cell (cells.map visible) i) := by
  apply List.ext_getElem
  · simp [padded, widths]
  · intro i hi hi'
    have hlt : i < columns.length := by simpa using hi'
    have hcolumn := List.getElem?_eq_getElem hlt
    have hseen := visible_pad columns[i].align (widthAt columns rows i) (closed_cell hcells i)
    rw [visible_cell, widthAt_of_getElem? hcolumn] at hseen
    simpa [padded, widths, widthAt_of_getElem? hcolumn] using hseen

/-! ## Lines -/

theorem fields_line_append (hs : '\n' ∉ s) (t : List Char) :
    Text.fields '\n' (line s ++ t) = ([' ', ' '] ++ s) :: Text.fields '\n' t := by
  have hsplit : line s ++ t = ([' ', ' '] ++ s) ++ '\n' :: t := by simp [line]
  rw [hsplit, Text.fields_append, Text.fields_of_not_mem (by simp [hs]), List.singleton_append]

/-- The lines of a text that ends with a line break, behind which nothing stands. -/
theorem fields_flatMap_line {texts : List (List Char)} (h : ∀ s ∈ texts, '\n' ∉ s) :
    Text.fields '\n' (texts.flatMap line) = texts.map (fun s => [' ', ' '] ++ s) ++ [[]] := by
  induction texts with
  | nil => rfl
  | cons s rest ih =>
      obtain ⟨hs, hrest⟩ := List.forall_mem_cons.1 h
      rw [List.flatMap_cons, fields_line_append hs, ih hrest, List.map_cons]
      rfl

theorem visible_line (hs : Closed s) : visible (line s) = line (visible s) := by
  have hend : visible (s ++ ['\n']) = visible s ++ ['\n'] := by
    rw [hs.visible_append]
    rfl
  rw [line, line, ← hend]
  rfl

theorem closed_line (hs : Closed s) : Closed (line s) :=
  (closed_of_not_mem (s := [' ', ' ']) (by decide)).append (hs.append (by decide))

theorem visible_flatMap_line {texts : List (List Char)} (h : ∀ s ∈ texts, Closed s) :
    visible (texts.flatMap line) = (texts.map visible).flatMap line := by
  induction texts with
  | nil => rfl
  | cons s rest ih =>
      obtain ⟨hs, hrest⟩ := List.forall_mem_cons.1 h
      rw [List.flatMap_cons, (closed_line hs).visible_append, visible_line hs, ih hrest, List.map_cons,
        List.flatMap_cons]

/-- The text of a line of cells. -/
def cellsText (columns : List Column) (rows : List (List (List Char))) (cells : List (List Char)) : List Char :=
  Text.trimEnd (Text.joinWith [' ', ' '] (padded columns (widths columns rows) cells))

/-- The text of the rule under the headers. -/
def ruleText (widths : List Nat) : List Char :=
  Text.joinWith [' ', ' '] (widths.map fun width => List.replicate width '-')

/-- The texts of the lines of a grid. -/
def texts (columns : List Column) (rows : List (List (List Char))) : List (List Char) :=
  cellsText columns rows (columns.map Column.header) :: ruleText (widths columns rows) ::
    rows.map (cellsText columns rows)

theorem grid_eq (columns : List Column) (rows : List (List (List Char))) :
    grid columns rows = (texts columns rows).flatMap line := by
  simp only [texts, List.flatMap_cons, List.flatMap_map]
  rw [grid, List.append_assoc]
  rfl

theorem closed_cellsText (hcells : ∀ s ∈ cells, Closed s) : Closed (cellsText columns rows cells) :=
  (closed_joinWith (by decide) (closed_of_mem_padded hcells)).trimEnd

theorem mem_cellsText (h : c ∈ cellsText columns rows cells) : c = ' ' ∨ ∃ s ∈ cells, c ∈ s := by
  have hjoined := (List.rdropWhile_prefix Text.isBlank _).subset h
  rcases Text.mem_of_mem_joinWith hjoined with hblank | ⟨part, hpart, hc⟩
  · exact .inl (by simpa using hblank)
  · exact mem_of_mem_padded hpart hc

theorem mem_ruleText {widths : List Nat} (h : c ∈ ruleText widths) : c = ' ' ∨ c = '-' := by
  rcases Text.mem_of_mem_joinWith h with hblank | ⟨part, hpart, hc⟩
  · exact .inl (by simpa using hblank)
  · obtain ⟨width, -, rfl⟩ := List.mem_map.1 hpart
    exact .inr (List.eq_of_mem_replicate hc)

theorem closed_ruleText (widths : List Nat) : Closed (ruleText widths) :=
  closed_of_not_mem fun h => absurd (mem_ruleText h) (by decide)

theorem closed_of_mem_texts (hheaders : ∀ column ∈ columns, Closed column.header)
    (hrows : ∀ row ∈ rows, ∀ s ∈ row, Closed s) : ∀ s ∈ texts columns rows, Closed s := by
  rw [texts, List.forall_mem_cons, List.forall_mem_cons, List.forall_mem_map]
  refine ⟨closed_cellsText ?_, closed_ruleText _, fun row hrow => closed_cellsText (hrows row hrow)⟩
  rwa [List.forall_mem_map]

/-- A grid is written with the characters of its texts, blanks and dashes. -/
theorem not_mem_of_mem_texts (hblank : c ≠ ' ') (hdash : c ≠ '-') (hheaders : ∀ column ∈ columns, c ∉ column.header)
    (hrows : ∀ row ∈ rows, ∀ s ∈ row, c ∉ s) : ∀ s ∈ texts columns rows, c ∉ s := by
  have hcells : ∀ cells : List (List Char), (∀ s ∈ cells, c ∉ s) → c ∉ cellsText columns rows cells := by
    intro cells hnone hmem
    obtain ⟨s, hs, hc⟩ := (mem_cellsText hmem).resolve_left hblank
    exact hnone s hs hc
  rw [texts, List.forall_mem_cons, List.forall_mem_cons, List.forall_mem_map]
  refine ⟨hcells _ ?_, fun hmem => ?_, fun row hrow => hcells row (hrows row hrow)⟩
  · rwa [List.forall_mem_map]
  · exact (mem_ruleText hmem).elim hblank hdash

theorem not_mem_grid (hblank : c ≠ ' ') (hdash : c ≠ '-') (hnewline : c ≠ '\n')
    (hheaders : ∀ column ∈ columns, c ∉ column.header) (hrows : ∀ row ∈ rows, ∀ s ∈ row, c ∉ s) :
    c ∉ grid columns rows := by
  rw [grid_eq, List.mem_flatMap]
  rintro ⟨text, htext, hmem⟩
  have hc : c ∈ text := by simpa [line, hblank, hnewline] using hmem
  exact not_mem_of_mem_texts hblank hdash hheaders hrows text htext hc

/-! ## The layout -/

/-- A text that can stand in a cell: every escape character has an `m` behind it, and there is no line break. -/
structure IsCell (s : List Char) : Prop where
  closed : Closed s
  no_newline : '\n' ∉ s

instance : DecidablePred IsCell := fun s =>
  decidable_of_iff (Closed s ∧ '\n' ∉ s) ⟨fun h => ⟨h.1, h.2⟩, fun h => ⟨h.closed, h.no_newline⟩⟩

/-- A line of plain cells: two blanks, and the cells placed in their columns with two blanks between them. -/
def plainLine (columns : List Column) (width : Nat → Nat) (cells : List (List Char)) : List Char :=
  [' ', ' '] ++ Text.joinWith [' ', ' ']
    (columns.mapIdx fun i column => column.align.place (width i) (cell cells i))

/-- The line under the headers: a rule as wide as each column. -/
def ruleLine (columns : List Column) (width : Nat → Nat) : List Char :=
  [' ', ' '] ++ Text.joinWith [' ', ' '] (columns.mapIdx fun i _ => List.replicate (width i) '-')

/-- The lines of a grid of plain texts whose columns have the given widths. -/
def layout (columns : List Column) (width : Nat → Nat) (rows : List (List (List Char))) : List (List Char) :=
  plainLine columns width (columns.map Column.header) :: ruleLine columns width ::
    rows.map (plainLine columns width)

/-- A column with what is seen of its header. -/
def Column.plain (column : Column) : Column := { column with header := visible column.header }

theorem plainLine_plain (columns : List Column) (width : Nat → Nat) (cells : List (List Char)) :
    plainLine (columns.map Column.plain) width cells = plainLine columns width cells := by
  have hcells : (columns.map Column.plain).mapIdx (fun i column => column.align.place (width i) (cell cells i)) =
      columns.mapIdx fun i column => column.align.place (width i) (cell cells i) := by
    rw [List.mapIdx_eq_iff]
    intro i
    simp [Function.comp_def, Column.plain]
  rw [plainLine, hcells, plainLine]

theorem ruleLine_plain (columns : List Column) (width : Nat → Nat) :
    ruleLine (columns.map Column.plain) width = ruleLine columns width := by
  have hrules : (columns.map Column.plain).mapIdx (fun i _ => List.replicate (width i) '-') =
      columns.mapIdx fun i _ => List.replicate (width i) '-' := by
    rw [List.mapIdx_eq_iff]
    intro i
    simp [Function.comp_def]
  rw [ruleLine, hrules, ruleLine]

theorem trimEnd_visible_cellsText (rows : List (List (List Char))) (hcells : ∀ s ∈ cells, Closed s) :
    Text.trimEnd ([' ', ' '] ++ visible (cellsText columns rows cells)) =
      Text.trimEnd (plainLine columns (widthAt columns rows) (cells.map visible)) := by
  have hpadded : ∀ part ∈ padded columns (widths columns rows) cells, Closed part := closed_of_mem_padded hcells
  rw [cellsText, (closed_joinWith (by decide) hpadded).trimEnd_append_visible, visible_joinWith (by decide) hpadded,
    visible_padded rows hcells, plainLine]

theorem visible_ruleText (columns : List Column) (rows : List (List (List Char))) :
    [' ', ' '] ++ visible (ruleText (widths columns rows)) = ruleLine columns (widthAt columns rows) := by
  have hrules : (widths columns rows).map (fun width => List.replicate width '-') =
      columns.mapIdx fun i _ => List.replicate (widthAt columns rows i) '-' := by
    apply List.ext_getElem
    · simp [widths]
    · intro i hi hi'
      have hlt : i < columns.length := by simpa using hi'
      simp [widths, widthAt_of_getElem? (List.getElem?_eq_getElem hlt)]
  rw [visible_eq_self fun h => absurd (mem_ruleText h) (by decide), ruleText, hrules, ruleLine]

/-- What is seen of the lines of a grid, up to white space at their ends. -/
theorem map_texts_eq (hheaders : ∀ column ∈ columns, Closed column.header)
    (hrows : ∀ row ∈ rows, ∀ s ∈ row, Closed s) :
    (texts columns rows).map (fun s => Text.trimEnd ([' ', ' '] ++ visible s)) =
      (layout (columns.map Column.plain) (widthAt columns rows) (rows.map (List.map visible))).map Text.trimEnd := by
  have hcells : ∀ s ∈ columns.map Column.header, Closed s := by rwa [List.forall_mem_map]
  have hheader : (columns.map Column.plain).map Column.header = (columns.map Column.header).map visible := by
    simp [Column.plain]
  have hbody : ∀ row ∈ rows, Text.trimEnd ([' ', ' '] ++ visible (cellsText columns rows row)) =
      Text.trimEnd (plainLine (columns.map Column.plain) (widthAt columns rows) (row.map visible)) := by
    intro row hrow
    rw [trimEnd_visible_cellsText rows (hrows row hrow), plainLine_plain]
  simp only [texts, layout, List.map_cons, List.map_map, visible_ruleText, trimEnd_visible_cellsText rows hcells,
    ruleLine_plain, plainLine_plain, hheader]
  simpa [plainLine_plain] using hbody

theorem visibleLength_visible (s : List Char) : visibleLength (visible s) = visibleLength s := by
  rw [visibleLength, visible_visible, visibleLength]

/-- The widths of the columns do not depend on what is not seen. -/
theorem columnWidth_visible (rows : List (List (List Char))) (i : Nat) (header : List Char) :
    columnWidth (rows.map (List.map visible)) i (visible header) = columnWidth rows i header := by
  unfold columnWidth
  simp only [List.foldl_map, ← visible_cell, visibleLength_visible]

theorem widthAt_plain (columns : List Column) (rows : List (List (List Char))) :
    widthAt (columns.map Column.plain) (rows.map (List.map visible)) = widthAt columns rows := by
  funext i
  cases hcolumn : columns[i]? with
  | none => simp [widthAt, widths, hcolumn]
  | some column =>
      have hplain : (columns.map Column.plain)[i]? = some column.plain := by simp [hcolumn]
      rw [widthAt_of_getElem? hcolumn, widthAt_of_getElem? hplain, Column.plain, columnWidth_visible]

theorem map_plain_plain (columns : List Column) :
    (columns.map Column.plain).map Column.plain = columns.map Column.plain := by
  simp [Column.plain, visible_visible]

theorem map_visible_visible (rows : List (List (List Char))) :
    (rows.map (List.map visible)).map (List.map visible) = rows.map (List.map visible) := by
  simp [visible_visible]

/-- The lines of a grid, if no text of it has a line break. -/
theorem fields_grid (hheaders : ∀ column ∈ columns, '\n' ∉ column.header)
    (hrows : ∀ row ∈ rows, ∀ s ∈ row, '\n' ∉ s) :
    Text.fields '\n' (grid columns rows) = (texts columns rows).map (fun s => [' ', ' '] ++ s) ++ [[]] := by
  rw [grid_eq, fields_flatMap_line (not_mem_of_mem_texts (by decide) (by decide) hheaders hrows)]

/-- What is seen of a grid has as many lines, each of which is seen of a line of the grid. -/
theorem fields_visible_grid (hheaders : ∀ column ∈ columns, IsCell column.header)
    (hrows : ∀ row ∈ rows, ∀ s ∈ row, IsCell s) :
    Text.fields '\n' (visible (grid columns rows)) = (Text.fields '\n' (grid columns rows)).map visible := by
  have hnewline := not_mem_of_mem_texts (by decide) (by decide)
    (fun column hcolumn => (hheaders column hcolumn).no_newline) fun row hrow s hs => (hrows row hrow s hs).no_newline
  have hclosed := closed_of_mem_texts (fun column hcolumn => (hheaders column hcolumn).closed)
    fun row hrow s hs => (hrows row hrow s hs).closed
  have hseen : ∀ s ∈ (texts columns rows).map visible, '\n' ∉ s := by
    rw [List.forall_mem_map]
    exact fun s hs hmem => hnewline s hs ((visible_sublist s).subset hmem)
  rw [grid_eq, visible_flatMap_line hclosed, fields_flatMap_line hseen, fields_flatMap_line hnewline,
    List.map_append, List.map_map, List.map_map]
  rfl

/-- The lines of a grid show the layout of what is seen of its texts. -/
theorem map_fields_grid (hheaders : ∀ column ∈ columns, IsCell column.header)
    (hrows : ∀ row ∈ rows, ∀ s ∈ row, IsCell s) :
    (Text.fields '\n' (grid columns rows)).map (fun s => Text.trimEnd (visible s)) =
      (layout (columns.map Column.plain) (widthAt columns rows) (rows.map (List.map visible))).map Text.trimEnd ++
        [[]] := by
  have hseen := map_texts_eq (fun column hcolumn => (hheaders column hcolumn).closed)
    fun row hrow s hs => (hrows row hrow s hs).closed
  rw [fields_grid (fun column hcolumn => (hheaders column hcolumn).no_newline)
    fun row hrow s hs => (hrows row hrow s hs).no_newline, List.map_append, List.map_map, ← hseen]
  rfl

theorem isCell_visible (h : IsCell s) : IsCell (visible s) :=
  ⟨closed_visible s, fun hmem => h.no_newline ((visible_sublist s).subset hmem)⟩

/-- The lines of the grid of what is seen of some texts.  Nothing of them is hidden. -/
theorem map_fields_grid_plain (hheaders : ∀ column ∈ columns, IsCell column.header)
    (hrows : ∀ row ∈ rows, ∀ s ∈ row, IsCell s) :
    (Text.fields '\n' (grid (columns.map Column.plain) (rows.map (List.map visible)))).map Text.trimEnd =
      (layout (columns.map Column.plain) (widthAt columns rows) (rows.map (List.map visible))).map Text.trimEnd ++
        [[]] := by
  have hheaders' : ∀ column ∈ columns.map Column.plain, IsCell column.header := by
    rw [List.forall_mem_map]
    exact fun column hcolumn => isCell_visible (hheaders column hcolumn)
  have hrows' : ∀ row ∈ rows.map (List.map visible), ∀ s ∈ row, IsCell s := by
    simp only [List.forall_mem_map]
    exact fun row hrow s hs => isCell_visible (hrows row hrow s hs)
  have hlines := map_fields_grid hheaders' hrows'
  rw [map_plain_plain, map_visible_visible, widthAt_plain] at hlines
  rw [← hlines]
  refine List.map_congr_left fun s hs => ?_
  have hplain : escapeChar ∉ grid (columns.map Column.plain) (rows.map (List.map visible)) := by
    apply not_mem_grid (by decide) (by decide) (by decide)
    · rw [List.forall_mem_map]
      exact fun column _ => escapeChar_not_mem_visibleFrom
    · simp only [List.forall_mem_map]
      exact fun row _ s _ => escapeChar_not_mem_visibleFrom
  rw [visible_eq_self fun hmem => hplain ((Text.infix_of_mem_fields hs).subset hmem)]

/-- The layout of a grid.  Every column has the width of the widest text that is seen in it, and each line shows what is
seen of its cells, padded to the widths.  This is, line by line, the grid of what is seen of the texts. -/
theorem grid_layout (hheaders : ∀ column ∈ columns, IsCell column.header)
    (hcells : ∀ row ∈ rows, ∀ s ∈ row, IsCell s) :
    ∃ width : Nat → Nat,
      (∀ i column, columns[i]? = some column →
        IsGreatest (visibleLength '' columnTexts rows i column.header) (width i)) ∧
      (Text.fields '\n' (grid columns rows)).map (fun s => Text.trimEnd (visible s)) =
        (layout (columns.map Column.plain) width (rows.map (List.map visible))).map Text.trimEnd ++ [[]] ∧
      Text.fields '\n' (visible (grid columns rows)) = (Text.fields '\n' (grid columns rows)).map visible ∧
      (Text.fields '\n' (visible (grid columns rows))).map Text.trimEnd =
        (Text.fields '\n' (grid (columns.map Column.plain) (rows.map (List.map visible)))).map Text.trimEnd := by
  have hseen := fields_visible_grid hheaders hcells
  have hlines := map_fields_grid hheaders hcells
  refine ⟨widthAt columns rows, ?_, hlines, hseen, ?_⟩
  · intro i column hcolumn
    rw [widthAt_of_getElem? hcolumn]
    exact isGreatest_columnWidth rows i column.header
  · rw [hseen, map_fields_grid_plain hheaders hcells, ← hlines, List.map_map]
    rfl

/-- A bold header and a column on the right. -/
def colouredColumns : List Column := [⟨"\x1b[1mLabel\x1b[0m".toList, .left⟩, ⟨"Rows".toList, .right⟩]

/-- A coloured cell, a row that is short, and one that is too long, with white space in front of the end of its colour. -/
def colouredRows : List (List (List Char)) :=
  [["\x1b[32mmaster\x1b[0m".toList, "42".toList], ["v2".toList],
    ["\x1b[33m\x1b[1mrc  \x1b[0m".toList, "\x1b[31m7 \x1b[0m".toList, "surplus".toList]]

theorem grid_layout_colouredRows :
    (∀ column ∈ colouredColumns, IsCell column.header) ∧ (∀ row ∈ colouredRows, ∀ s ∈ row, IsCell s) ∧
      (Text.fields '\n' (visible (grid colouredColumns colouredRows))).map Text.trimEnd =
        ["  Label   Rows".toList, "  ------  ----".toList, "  master    42".toList, "  v2".toList,
          "  rc        7".toList, []] := by
  have hheaders : ∀ column ∈ colouredColumns, IsCell column.header := by decide
  have hcells : ∀ row ∈ colouredRows, ∀ s ∈ row, IsCell s := by decide
  obtain ⟨-, -, -, -, hlines⟩ := grid_layout hheaders hcells
  refine ⟨hheaders, hcells, ?_⟩
  rw [hlines]
  decide

end LayeredConfig.Terminal
