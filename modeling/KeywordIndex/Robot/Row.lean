import KeywordIndex.Robot.Lexeme

namespace KeywordIndex.Robot

open Text

/-!
# Rows of a table file

A row is a line with at least one cell. Separators and comments end a cell; single spaces belong to it.
A row is indented if its line begins with a separator. Lines and columns are counted in words of 32 bits,
so beyond that they begin again at zero.
-/

/-- A line that has cells. -/
structure Row where
  /-- The line, counted from zero. -/
  line : UInt32
  /-- The byte column of the first cell. -/
  start : UInt32
  /-- Whether the line begins with a separator. -/
  indented : Bool
  cells : List String
  deriving DecidableEq, Repr

namespace Row

/-- The number of the line. -/
def number (row : Row) : Nat := row.line.toNat

/-- The number of the column. -/
def column (row : Row) : Nat := row.start.toNat

/-- The first cell. -/
def first (row : Row) : String := row.cells.headD ""

/-- The cells after the first. -/
def rest (row : Row) : List String := row.cells.drop 1

/-- Whether the row continues the row before it. -/
def isContinuation (row : Row) : Bool := row.first == "..."

end Row

/-- A row under way. -/
structure RowDraft where
  line : UInt32 := 0
  /-- The bytes of the line read so far. -/
  width : Nat := 0
  start : Option UInt32 := none
  indented : Bool := false
  /-- The finished cells, last first. -/
  cells : List String := []
  cell : List Char := []
  /-- Whether a single space was read after the text of the cell. -/
  spaced : Bool := false

namespace RowDraft

/-- Finishes the cell under way. -/
def endCell (d : RowDraft) : RowDraft :=
  let cells := if d.cell.isEmpty then d.cells else String.ofList d.cell :: d.cells
  { d with cells := cells, cell := [], spaced := false }

/-- Adds a word to the cell under way. -/
def addWord (d : RowDraft) (word : List Char) : RowDraft :=
  let gap := if d.spaced && !d.cell.isEmpty then [' '] else []
  { d with
    start := some (d.start.getD (.ofNat d.width))
    cell := d.cell ++ gap ++ word
    spaced := false }

/-- Reads a separator: before the first cell it indents the row. -/
def separate (d : RowDraft) : RowDraft :=
  { d.endCell with indented := d.indented || (d.start.isNone && d.cells.isEmpty) }

/-- Reads a lexeme that does not end the line. -/
def read (d : RowDraft) (lexeme : Lexeme) : RowDraft :=
  let next :=
    match lexeme.kind with
    | .separator => d.separate
    | .space => { d with spaced := true }
    | .comment => d.endCell
    | _ => d.addWord lexeme.text
  { next with width := d.width + byteLength lexeme.text }

/-- The row, if it has a cell. -/
def finish (d : RowDraft) : Option Row :=
  let done := d.endCell
  if done.cells.isEmpty then none
  else some ⟨done.line, done.start.getD 0, done.indented, done.cells.reverse⟩

end RowDraft

/-- The rows of what follows the draft. -/
def rowsFrom (d : RowDraft) : List Lexeme → List Row
  | [] => d.finish.toList
  | lexeme :: rest =>
    if lexeme.kind = .lineEnd then d.finish.toList ++ rowsFrom { line := d.line + 1 } rest
    else rowsFrom (d.read lexeme) rest

/-- The rows of a table file. -/
def rows (text : List Char) : List Row := rowsFrom {} (lexemes text)

end KeywordIndex.Robot
