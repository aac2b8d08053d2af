import KeywordIndex.LineIndex
import KeywordIndex.Text.Blank
import KeywordIndex.Text.Split

namespace KeywordIndex

open Text

/-!
# Outline of a source

What one source declares: keywords, test cases, and the libraries and resources it imports. Table files
and library documents are both read into an outline.
-/

/-- An argument of a keyword, with its default value if it has one. -/
structure Argument where
  name : String
  defaultValue : Option String := none
  deriving DecidableEq

namespace Argument

/-- Cuts `name=default` at the first equals sign; without one the whole text is the name. -/
def ofText (text : List Char) : Argument :=
  match cutAt? ['='] text with
  | some (name, value) => ⟨String.ofList (trim name), some (String.ofList (trim value))⟩
  | none => ⟨String.ofList (trim text), none⟩

/-- The argument as it is shown. -/
def shown (a : Argument) : String :=
  match a.defaultValue with
  | some value => a.name ++ "=" ++ value
  | none => a.name

/-- Whether the argument may be left out of a call. -/
def isOptional (a : Argument) : Bool := a.defaultValue.isSome

end Argument

/-- A library named in a settings table, with the name it goes by in that file. -/
structure LibraryImport where
  name : String
  localName : Option String
  deriving DecidableEq

/-- A keyword or a test case as it stands in its source. Test cases have no arguments. -/
structure Declaration where
  name : String
  documentation : String
  arguments : List Argument
  position : Option Position
  deriving DecidableEq

/-- All that is taken from one source. Resources are kept as written. -/
structure Outline where
  keywords : List Declaration := []
  testCases : List Declaration := []
  libraries : List LibraryImport := []
  resources : List String := []
  deriving DecidableEq, Inhabited

namespace Outline

/-- Whether the source declares a test case. -/
def hasTestCases (o : Outline) : Bool := !o.testCases.isEmpty

/-- Whether the source declares a keyword. -/
def hasKeywords (o : Outline) : Bool := !o.keywords.isEmpty

end Outline

end KeywordIndex
