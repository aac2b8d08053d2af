import KeywordIndex.Proofs.Robot.Cells
import KeywordIndex.Proofs.Robot.Sections

namespace KeywordIndex.Robot

open Text

/-! # Rows as they are written

Rows of cells may be written with any separators and any line ends, and are read back as they were
(`rows_writeRows`).
-/

/-- A cell as it is written. -/
structure Cell where
  text : String
  isCell : IsCell text.toList

/-- A separator as it is written. -/
structure Separator where
  text : List Char
  isSeparator : IsSeparator text

/-- The ways to end a line. -/
inductive LineEnd where
  | feed
  | returnFeed
  | carriageReturn

def LineEnd.text : LineEnd → List Char
  | feed => ['\n']
  | returnFeed => ['\r', '\n']
  | carriageReturn => ['\r']

/-- The separators, by row and place in the row, and the line ends, by row. -/
structure Layout where
  separator : Nat → Nat → Separator
  lineEnd : Nat → LineEnd

/-- A row as it is written. -/
structure CellRow where
  indented : Bool
  first : Cell
  rest : List Cell

/-- The row without its place. -/
def CellRow.row (r : CellRow) : Row := ⟨0, 0, r.indented, r.first.text :: r.rest.map Cell.text⟩

/-- Cells with a separator before each. -/
def writeCells (separator : Nat → Separator) : Nat → List Cell → List Char
  | _, [] => []
  | place, cell :: rest =>
    (separator place).text ++ (cell.text.toList ++ writeCells separator (place + 1) rest)

/-- The line of a row. -/
def CellRow.write (separator : Nat → Separator) (r : CellRow) : List Char :=
  (if r.indented then (separator 0).text else []) ++
    (r.first.text.toList ++ writeCells separator 1 r.rest)

/-- The lines of some rows, the first of which has the given number. -/
def writeRows (layout : Layout) : Nat → List CellRow → List Char
  | _, [] => []
  | number, r :: rest =>
    r.write (layout.separator number) ++
      ((layout.lineEnd number).text ++ writeRows layout (number + 1) rest)

variable (separator : Nat → Separator)

/-! ## One row -/

theorem Cell.notLed (cell : Cell) (tail : List Char) : NotLed isGap (cell.text.toList ++ tail) := by
  refine NotLed.append_of_ne_nil ?_ cell.isCell.nonempty tail
  intro c hc
  have htab := (cell.isCell.chars c (List.mem_of_head? hc)).1
  have hspace : c ≠ ' ' := by
    rintro rfl
    exact cell.isCell.head hc
  simp [isGap, htab, hspace]

theorem Separator.ne_nil (s : Separator) : s.text ≠ [] := by
  intro hnil
  rcases s.isSeparator.2 with h | h <;> simp [hnil] at h

theorem Separator.onOneLine (s : Separator) : OnOneLine s.text := by
  intro c hc
  have hgap := s.isSeparator.1 c hc
  simp only [isGap, Bool.or_eq_true, beq_iff_eq] at hgap
  rcases hgap with rfl | rfl <;> rfl

/-- A cell ends where the next separator or the line ends. -/
theorem notLed_writeCells (place : Nat) (cells : List Cell) :
    NotLed isWordChar (writeCells separator place cells) := by
  cases cells with
  | nil => exact notLed_nil
  | cons cell cells =>
    refine NotLed.append_of_ne_nil ?_ (separator place).ne_nil _
    intro c hc
    have hgap := (separator place).isSeparator.1 c (List.mem_of_head? hc)
    simp [isWordChar, hgap]

theorem onOneLine_writeCells (place : Nat) (cells : List Cell) :
    OnOneLine (writeCells separator place cells) := by
  induction cells generalizing place with
  | nil => exact onOneLine_nil
  | cons cell cells ih =>
    exact (separator place).onOneLine.append (cell.isCell.onOneLine.append (ih (place + 1)))

theorem CellRow.onOneLine_write (r : CellRow) : OnOneLine (r.write separator) := by
  refine OnOneLine.append ?_ (r.first.isCell.onOneLine.append (onOneLine_writeCells separator 1 r.rest))
  split
  · exact (separator 0).onOneLine
  · exact onOneLine_nil

/-- Cells are read after the one under way, in their order. -/
theorem finish_writeCells (cells : List Cell) {d : RowDraft} (place : Nat) (hcell : d.cell ≠ [])
    (hstart : d.start.isSome = true) :
    (((lexemes (writeCells separator place cells)).foldl RowDraft.read d).finish).map Row.unplaced =
      some ⟨0, 0, d.indented, d.cells.reverse ++ String.ofList d.cell :: cells.map Cell.text⟩ := by
  -- a separator finishes the cell under way, and the next cell is under way then
  induction cells generalizing d place with
  | nil => simp [writeCells, lexemes, RowDraft.finish, RowDraft.endCell, hcell, Row.unplaced]
  | cons cell cells ih =>
    rw [writeCells, lexemes_separator (separator place).isSeparator (cell.notLed _), List.foldl_cons]
    have hseparated : (d.read ⟨.separator, (separator place).text⟩).cell = [] := rfl
    obtain ⟨e, hecell, hecells, heindented, hestart, hfold⟩ :=
      foldl_read_cell cell.isCell (notLed_writeCells separator (place + 1) cells) hseparated
    have hne : e.cell ≠ [] := by
      rw [hecell]
      exact cell.isCell.nonempty
    rw [hfold, ih (place + 1) hne (by rw [hestart]; rfl), hecell, hecells, heindented]
    -- the row has begun, so the separator does not indent it
    have hnone : d.start.isNone = false := by simpa using hstart
    simp [RowDraft.read, RowDraft.separate, RowDraft.endCell, hcell, hnone]

/-- A line that is written gives the row again. -/
theorem rowOfLine_write (r : CellRow) (number : UInt32) :
    (rowOfLine number (r.write separator)).map Row.unplaced = some r.row := by
  have hfirst {d : RowDraft} (hcells : d.cells = []) (hcell : d.cell = []) :
      (((lexemes (r.first.text.toList ++ writeCells separator 1 r.rest)).foldl RowDraft.read d).finish).map
        Row.unplaced = some ⟨0, 0, d.indented, r.first.text :: r.rest.map Cell.text⟩ := by
    obtain ⟨e, hecell, hecells, heindented, hestart, hfold⟩ :=
      foldl_read_cell r.first.isCell (notLed_writeCells separator 1 r.rest) hcell
    have hne : e.cell ≠ [] := by
      rw [hecell]
      exact r.first.isCell.nonempty
    rw [hfold, finish_writeCells separator r.rest 1 hne (by rw [hestart]; rfl), hecell, hecells, heindented]
    simp [hcells]
  unfold rowOfLine CellRow.write CellRow.row
  cases r.indented with
  | true =>
    rw [if_pos rfl, lexemes_separator (separator 0).isSeparator (r.first.notLed _), List.foldl_cons]
    exact hfirst rfl rfl
  | false => exact hfirst rfl rfl

/-! ## All rows -/

/-- A line feed after a carriage return is never of the next row. -/
theorem ends_writeRows (layout : Layout) (number : Nat) (rs : List CellRow) (lineEnd : LineEnd) :
    Ends lineEnd.text (writeRows layout number rs) := by
  have hhead : (writeRows layout number rs).head? ≠ some '\n' := by
    cases rs with
    | nil => simp [writeRows]
    | cons r rs =>
      intro hfeed
      have hne : r.write (layout.separator number) ≠ [] := by
        simp [CellRow.write, r.first.isCell.nonempty]
      obtain ⟨c, hc⟩ : ∃ c, (r.write (layout.separator number)).head? = some c :=
        ⟨_, List.head?_eq_some_head hne⟩
      have hline : isLineEnd c = false := r.onOneLine_write (layout.separator number) c (List.mem_of_head? hc)
      rw [writeRows, List.head?_append, hc] at hfeed
      obtain rfl := Option.some.inj hfeed
      cases hline
  cases lineEnd with
  | feed => exact .inl rfl
  | returnFeed => exact .inr (.inl rfl)
  | carriageReturn => exact .inr (.inr ⟨rfl, hhead⟩)

/-- Rows that are written are read again. -/
theorem rowsFrom_writeRows (layout : Layout) (rs : List CellRow) (number : Nat) :
    (rowsFrom { line := .ofNat number } (lexemes (writeRows layout number rs))).map Row.unplaced =
      rs.map CellRow.row := by
  induction rs generalizing number with
  | nil => simp [writeRows, lexemes, rowsFrom, RowDraft.finish, RowDraft.endCell]
  | cons r rs ih =>
    rw [writeRows, rowsFrom_line (r.onOneLine_write _) (ends_writeRows layout _ _ _), List.map_append, ih,
      List.map_cons]
    have hrow := rowOfLine_write (layout.separator number) r (.ofNat number)
    obtain ⟨row, hsome, hunplaced⟩ := Option.map_eq_some_iff.mp hrow
    simp [hsome, hunplaced]

theorem rows_writeRows (layout : Layout) (rs : List CellRow) :
    (rows (writeRows layout 0 rs)).map Row.unplaced = rs.map CellRow.row :=
  rowsFrom_writeRows layout rs 0

end KeywordIndex.Robot
