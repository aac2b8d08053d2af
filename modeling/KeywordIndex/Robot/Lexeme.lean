import KeywordIndex.Text.Utf8

namespace KeywordIndex.Robot

open Text

/-!
# Lexemes of a table file

A table file is cut into line ends, separators, single spaces, comments and words. A separator is a tab
or a run of at least two spaces and tabs; a comment runs from `#` to the end of its line. Main
statement: `lexemes_flatten`, the lexemes written one after another are the text.
-/

/-- The kinds of lexeme. -/
inductive LexemeKind where
  | lineEnd
  | separator
  | space
  | comment
  | word
  deriving DecidableEq, Repr

/-- A piece of the text with its kind. -/
structure Lexeme where
  kind : LexemeKind
  text : List Char
  deriving DecidableEq, Repr

/-- A space or a tab. -/
def isGap (c : Char) : Bool := c == ' ' || c == '\t'

/-- A line feed or a carriage return. -/
def isLineEnd (c : Char) : Bool := c == '\n' || c == '\r'

/-- A character that may stand in a word. -/
def isWordChar (c : Char) : Bool := !(isGap c || isLineEnd c || c == '#')

/-- The kind of the lexeme that begins with `c`, and its length after `c` in the text `cs`. -/
def firstLexeme (c : Char) (cs : List Char) : LexemeKind × Nat :=
  if isLineEnd c then (.lineEnd, if c = '\r' ∧ cs.head? = some '\n' then 1 else 0)
  else if isGap c then
    let more := (cs.takeWhile isGap).length
    (if c = ' ' ∧ more = 0 then .space else .separator, more)
  else if c = '#' then (.comment, (cs.takeWhile (!isLineEnd ·)).length)
  else (.word, (cs.takeWhile isWordChar).length)

/-- The lexemes of a text. -/
def lexemes : List Char → List Lexeme
  | [] => []
  | c :: cs =>
    let (kind, more) := firstLexeme c cs
    ⟨kind, c :: cs.take more⟩ :: lexemes (cs.drop more)
termination_by cs => cs.length
decreasing_by simp only [List.length_drop, List.length_cons]; omega

/-- The lexemes written one after another are the text. -/
theorem lexemes_flatten (cs : List Char) : (lexemes cs).flatMap Lexeme.text = cs := by
  fun_induction lexemes cs with
  | case1 => rfl
  | case2 c cs kind more _ ih => simp [ih]

end KeywordIndex.Robot
