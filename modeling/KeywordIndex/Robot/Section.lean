import KeywordIndex.Robot.Row
import KeywordIndex.Text.Blank
import KeywordIndex.Text.Lowercase
import KeywordIndex.Text.Split

namespace KeywordIndex.Robot

open Text

/-!
# Sections of a table file

A row that is not indented and whose first cell begins with a star opens a section. The words of the
header, in any case and with any spacing, say which table it is.
-/

/-- The table that a header opens. -/
inductive SectionKind where
  | settings
  /-- The table of the variables and what they are bound to. -/
  | bindings
  | testCases
  | keywords
  /-- A header that names none of the four tables. -/
  | other
  deriving DecidableEq, Repr

namespace SectionKind

/-- Whether the header names one of the four tables. -/
def isKnown (kind : SectionKind) : Bool := kind != .other

/-- The table with the given name, written in lowercase with single spaces. -/
def ofName (name : String) : SectionKind :=
  if name ∈ ["setting", "settings"] then .settings
  else if name ∈ ["variable", "variables"] then .bindings
  else if name ∈ ["test case", "test cases", "testcase", "testcases"] then .testCases
  else if name ∈ ["keyword", "keywords"] then .keywords
  else .other

/-- What surrounds the name in a header. -/
def isFrame (c : Char) : Bool := c == '*' || isBlank c

/-- The table that the cell opens, if the cell is a header. -/
def ofHeader? (cell : String) : Option SectionKind :=
  match trimStart cell.toList with
  | '*' :: cs =>
    let name := dropEndWhile isFrame (('*' :: cs).dropWhile isFrame)
    some (ofName (String.ofList (lower (join [' '] (words name)))))
  | _ => none

end SectionKind

/-- The table that a row opens, if it is a header. -/
def Row.header? (row : Row) : Option SectionKind :=
  if row.indented then none else SectionKind.ofHeader? row.first

/-- A table and its rows. -/
structure Section where
  kind : SectionKind
  rows : List Row
  deriving DecidableEq, Repr

/-- The sections of some rows. Rows before the first header belong to none. -/
def sections : List Row → List Section
  | [] => []
  | row :: rest =>
    match row.header? with
    | some kind => ⟨kind, rest.takeWhile (·.header?.isNone)⟩ :: sections rest
    | none => sections rest

/-- The rows of all sections of a kind, in order. -/
def rowsOf (kind : SectionKind) (all : List Section) : List Row :=
  (all.filter (·.kind == kind)).flatMap (·.rows)

end KeywordIndex.Robot
