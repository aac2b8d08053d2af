import KeywordIndex.Text.Ascii
import KeywordIndex.Text.Utf8

namespace KeywordIndex.Query

open Text

/-!
# Typed text

What is typed for a keyword is the part of the line between the last cell separator and the cursor. A
leading word of a behaviour-driven step may or may not belong to the name of the keyword, so the text is
looked up with it and without it.
-/

/-- The characters of a text that end within its first `size` bytes. -/
def takeBytes (size : Nat) : List Char → List Char
  | [] => []
  | c :: cs => if c.utf8Size ≤ size then c :: takeBytes (size - c.utf8Size) cs else []

/-- Whether a cell ends at `c` after the character `before`: at a tab and at a second space. -/
def endsCell (before : Option Char) (c : Char) : Bool := c == '\t' || (c == ' ' && before == some ' ')

/-- The cell that is under way at the end of a text; `cell` is the part of it read before, reversed. -/
def lastCellFrom (before : Option Char) (cell : List Char) : List Char → List Char
  | [] => cell.reverse
  | c :: cs => lastCellFrom (some c) (if endsCell before c then [] else c :: cell) cs

/-- The text under the cursor, which stands at a byte column. -/
def typedText (line : List Char) (column : Nat) : List Char :=
  lastCellFrom none [] (takeBytes column line)

/-- The words that may lead a behaviour-driven step. -/
def stepWords : List String := ["given", "when", "then", "and", "but"]

/-- What follows a step word, in any case, and its space. -/
def afterStepWord? : (word text : List Char) → Option (List Char)
  | [], ' ' :: rest => some rest
  | c :: word, d :: text => if asciiLower d = c then afterStepWord? word text else none
  | _, _ => none

/-- A reading of a typed text: the byte offset at which the keyword begins, and the text from there. -/
structure Variant where
  offset : Nat
  text : List Char
  deriving DecidableEq, Repr

/-- The readings of a typed text: as a whole, and without a leading step word. -/
def variants (typed : List Char) : List Variant :=
  let stripped :=
    stepWords.findSome? fun word =>
      (afterStepWord? word.toList typed).map fun rest => Variant.mk (word.length + 1) rest
  ⟨0, typed⟩ :: stripped.toList

end KeywordIndex.Query
