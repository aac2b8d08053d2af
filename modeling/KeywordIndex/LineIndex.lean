import KeywordIndex.Text.Utf8

namespace KeywordIndex

open Text

/-!
# Lines and columns

Positions are given as a line and a byte column. Lines end at a carriage return with a line feed, at a
line feed and at a lone carriage return.
-/

/-- A place in a text, counted from zero. The column counts bytes. -/
structure Position where
  line : Nat
  column : Nat
  deriving DecidableEq, Repr

/-- A position as it is shown, counted from one. -/
def Position.shown (p : Position) : String := s!"{p.line + 1}:{p.column + 1}"

/-- The byte offsets at which the lines of a text start, in increasing order. -/
structure LineIndex where
  starts : List Nat
  deriving DecidableEq

namespace LineIndex

/-- The starts of the lines that begin after `offset`, where `cs` is the text from there. -/
def startsFrom (offset : Nat) : List Char → List Nat
  | [] => []
  | '\r' :: '\n' :: cs => (offset + 2) :: startsFrom (offset + 2) cs
  | c :: cs =>
    let next := offset + c.utf8Size
    if c = '\r' ∨ c = '\n' then next :: startsFrom next cs else startsFrom next cs

/-- The lines of a text; the first starts at zero. -/
def ofText (cs : List Char) : LineIndex := ⟨0 :: startsFrom 0 cs⟩

/-- The number of lines. -/
def size (index : LineIndex) : Nat := index.starts.length

/-- The line that holds the offset and the distance from its start. -/
def position (index : LineIndex) (offset : Nat) : Position :=
  let reached := index.starts.takeWhile (· ≤ offset)
  ⟨reached.length - 1, offset - reached.getLast?.getD 0⟩

end LineIndex

end KeywordIndex
