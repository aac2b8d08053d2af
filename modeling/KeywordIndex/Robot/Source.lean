import KeywordIndex.Outline
import KeywordIndex.Robot.Section
import KeywordIndex.Text.Ascii

namespace KeywordIndex.Robot

open Text

/-!
# Table files

A row of a keyword or test case table that is not indented names an entry, and the indented rows after
it are its body. The settings table imports libraries and resources. Reading never fails: what does not
fit is left out.
-/

/-- An entry of a table with the cells of its body rows. -/
structure Entry where
  name : String
  position : Position
  body : List (List String)
  deriving DecidableEq

/-- The body of an entry: the cells after its name, if there are any, and the indented rows that
follow. -/
def Entry.ofRow (row : Row) (indented : List Row) : Entry where
  name := row.first
  position := ⟨row.number, row.column⟩
  body := (if row.rest.isEmpty then [] else [row.rest]) ++ indented.map (·.cells)

/-- The entries of a table. Indented rows before the first name belong to none. -/
def entries : List Row → List Entry
  | [] => []
  | row :: rest =>
    if row.indented then entries rest
    else Entry.ofRow row (rest.takeWhile (·.indented)) :: entries rest

/-- The cells that continue a setting in the rows after it. -/
def continuation : List (List String) → List String
  | [] => []
  | row :: rest =>
    match row with
    | "..." :: cells => cells ++ continuation rest
    | _ => []

/-- The cells of the first body row that begins with the given setting, and of its continuation rows. -/
def settingCells (setting : String) : List (List String) → Option (List String)
  | [] => none
  | row :: rest =>
    match row with
    | [] => settingCells setting rest
    | first :: cells =>
      if asciiEqual first setting then some (cells ++ continuation rest)
      else settingCells setting rest

/-- An argument declared as `$`, `@` or `&` and a name in braces, with an optional default. -/
def argumentOfCell (cell : String) : Option Argument :=
  match cell.toList with
  | sigil :: '\x7b' :: body =>
    if sigil = '$' ∨ sigil = '@' ∨ sigil = '&' then
      match cutAt? ['\x7d'] body with
      | none => none
      | some (inner, rest) =>
        let name := trim inner
        if name.isEmpty then none
        else
          match rest with
          | '=' :: value => some ⟨String.ofList name, some (String.ofList value)⟩
          | _ => some ⟨String.ofList name, none⟩
    else none
  | _ => none

namespace Entry

/-- The cells of the documentation setting, joined by single spaces. -/
def documentation (e : Entry) : String :=
  match settingCells "[documentation]" e.body with
  | some cells => " ".intercalate cells
  | none => ""

/-- The arguments that the arguments setting declares; cells that declare none are left out. -/
def arguments (e : Entry) : List Argument :=
  match settingCells "[arguments]" e.body with
  | some cells => cells.filterMap argumentOfCell
  | none => []

/-- The entry of a keyword table. -/
def keyword (e : Entry) : Declaration := ⟨e.name, e.documentation, e.arguments, some e.position⟩

/-- The entry of a test case table. -/
def testCase (e : Entry) : Declaration := ⟨e.name, e.documentation, [], some e.position⟩

end Entry

/-- The cell after the first that announces an alias. -/
def localNameOf : List String → Option String
  | [] => none
  | cell :: rest =>
    if asciiEqual cell "with name" || cell == "AS" then rest.head? else localNameOf rest

/-- The library that a settings row imports. -/
def libraryOfRow (row : Row) : Option LibraryImport :=
  if asciiEqual row.first "library" then
    match row.rest with
    | [] => none
    | name :: options => some ⟨name, localNameOf options⟩
  else none

/-- The resource that a settings row imports. -/
def resourceOfRow (row : Row) : Option String :=
  if asciiEqual row.first "resource" then row.rest.head? else none

/-- The outline of some sections. -/
def outlineOf (all : List Section) : Outline where
  keywords := (entries (rowsOf .keywords all)).map Entry.keyword
  testCases := (entries (rowsOf .testCases all)).map Entry.testCase
  libraries := (rowsOf .settings all).filterMap libraryOfRow
  resources := (rowsOf .settings all).filterMap resourceOfRow

/-- The outline of a table file. -/
def parse (text : List Char) : Outline := outlineOf (sections (rows text))

end KeywordIndex.Robot
