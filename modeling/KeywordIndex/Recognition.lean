import KeywordIndex.Libdoc.Document
import KeywordIndex.Path.Basic
import KeywordIndex.Robot.Section
import KeywordIndex.Text.Ascii

namespace KeywordIndex

open Text

/-!
# Recognition of sources

A file counts as a table file or as a library document by its extension and its content. Recognition
never fails: what is recognised as neither is left alone.
-/

/-- The extension, in lowercase. -/
def Path.lowerExtension? (p : Path) : Option String := p.extension?.map lowercase

/-- The extension of files that are always table files. -/
def tableExtension : String := "robot"

/-- The extension of library documents. -/
def documentExtension : String := "xml"

/-- Whether the text begins, past blank and comment lines, with the header of a known table. -/
def isTableText (content : List Char) : Bool :=
  match Robot.rows content with
  | [] => false
  | row :: _ =>
    match Robot.SectionKind.ofHeader? row.first with
    | some kind => kind.isKnown
    | none => false

/-- Whether the extension is the given one, which may be written with dots before it. -/
def isListedExtension (extension listed : String) : Bool :=
  asciiEqual (String.ofList (listed.toList.dropWhile (· == '.'))) extension

/-- Whether the file is a table file. Files with one of the listed extensions are, if their text is. -/
def isTableFile (content : List Char) (path : Path) (listed : List String) : Bool :=
  match path.lowerExtension? with
  | none => false
  | some extension =>
    extension == tableExtension ||
      (listed.any (isListedExtension extension) && isTableText content)

/-- Whether the file is a library document. -/
def isDocumentFile (content : List Char) (path : Path) : Bool :=
  path.lowerExtension? == some documentExtension && Libdoc.isDocument content

/-- What a file is recognised as. -/
structure Classification where
  isTable : Bool
  isDocument : Bool
  deriving DecidableEq, Repr

namespace Classification

/-- Whether the file is one of the two kinds. -/
def isApplicable (c : Classification) : Bool := c.isTable || c.isDocument

end Classification

/-- Recognises a file by its path and content. -/
def classify (content : List Char) (path : Path) (listed : List String) : Classification :=
  ⟨isTableFile content path listed, isDocumentFile content path⟩

end KeywordIndex
