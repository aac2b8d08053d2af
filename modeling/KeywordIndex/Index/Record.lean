import KeywordIndex.Outline
import KeywordIndex.Path.Key
import KeywordIndex.Text.Ascii

namespace KeywordIndex

open Text

/-!
# Records

The index holds one record for each source: a table file or the documentation of a library. A record
lists its keywords, and a keyword carries the key of its record and its place in that list.
-/

/-- Names a keyword by its record and its place there. -/
structure KeywordId where
  file : Key
  ordinal : Nat
  deriving DecidableEq

/-- The identifier as it is shown. -/
def KeywordId.shown (id : KeywordId) : String := s!"{id.file.text}#{id.ordinal}"

/-- A keyword that can be called. -/
structure Keyword where
  id : KeywordId
  name : String
  documentation : String
  arguments : List Argument
  position : Option Position
  /-- Whether only the file that defines the keyword sees it. -/
  isLocal : Bool
  deriving DecidableEq

/-- The name under which keywords are looked up. -/
def lookupName (name : String) : String := lowercase name

namespace Keyword

/-- The name under which the keyword is looked up. -/
def lookupName (k : Keyword) : String := KeywordIndex.lookupName k.name

/-- The arguments as they are shown. -/
def argumentsText (k : Keyword) : String := ", ".intercalate (k.arguments.map Argument.shown)

/-- The first line of the documentation, with a period at its end. -/
def summary (k : Keyword) : String :=
  let first := trim ((lines k.documentation.toList).headD [])
  if first.isEmpty || first.getLast? == some '.' then String.ofList first
  else String.ofList (first ++ ['.'])

end Keyword

/-- A resource that a file imports. -/
structure ResourceImport where
  /-- The path as it is written. -/
  declared : String
  /-- The record of the imported file, once it is known to be indexed. -/
  resolved : Option Key := none
  deriving DecidableEq

namespace ResourceImport

/-- The stem of the declared path. -/
def name (r : ResourceImport) : String := (Path.mk r.declared).stem

/-- The extension of the declared path, with its dot. -/
def extension (r : ResourceImport) : String := (Path.mk r.declared).dottedExtension

end ResourceImport

/-- A record of the index. -/
structure SourceFile where
  key : Key
  displayName : String
  /-- The table file, or the document of a library. -/
  path : Option Path
  /-- Where the documentation of a library was generated from. -/
  documentationSource : Option Path := none
  isLibrary : Bool := false
  libraries : List LibraryImport
  resources : List ResourceImport
  keywords : List Keyword
  testCases : List Declaration
  deriving DecidableEq

/-- The keywords of a record, numbered from `ordinal`. -/
def keywordsFrom (file : Key) (isLocal : Bool) (ordinal : Nat) : List Declaration → List Keyword
  | [] => []
  | d :: rest =>
    ⟨⟨file, ordinal⟩, d.name, d.documentation, d.arguments, d.position, isLocal⟩ ::
      keywordsFrom file isLocal (ordinal + 1) rest

namespace SourceFile

/-- The record of an outline. The keywords of a file with test cases are local to it. -/
def ofOutline (key : Key) (displayName : String) (path : Option Path) (outline : Outline) :
    SourceFile where
  key := key
  displayName := displayName
  path := path
  libraries := outline.libraries
  resources := outline.resources.map fun declared => { declared := declared }
  keywords := keywordsFrom key outline.hasTestCases 0 outline.keywords
  testCases := outline.testCases

/-- The record of a table file. It is displayed by the stem of its path. -/
def ofTable (outline : Outline) (path : Path) : SourceFile :=
  let path := path.normalize
  ofOutline path.key path.stem (some path) outline

/-- The record of a library. -/
def ofLibrary (outline : Outline) (name : String) (document source : Option Path) : SourceFile :=
  { ofOutline (Key.ofText name) name (document.map Path.normalize) outline with
    isLibrary := true
    documentationSource := source }

/-- The extension of the path, with its dot. -/
def extension (f : SourceFile) : String :=
  match f.path with
  | some path => path.dottedExtension
  | none => ""

/-- Whether the file has test cases. -/
def hasTestCases (f : SourceFile) : Bool := !f.testCases.isEmpty

/-- Whether the file has keywords. -/
def hasKeywords (f : SourceFile) : Bool := !f.keywords.isEmpty

/-- The directory that relative imports start from. -/
def baseDirectory? (f : SourceFile) : Option Path := f.path.bind Path.parent?

/-- The names of the imported libraries. -/
def libraryNames (f : SourceFile) : List String := f.libraries.map (·.name)

/-- Whether the record is displayed by the given name, whatever the case of its ASCII letters. -/
def isNamed (f : SourceFile) (name : String) : Bool := asciiEqual f.displayName name

end SourceFile

/-- Whether the record has the name and the extension that the import declares. -/
def ResourceImport.matchesName (r : ResourceImport) (f : SourceFile) : Bool :=
  f.isNamed r.name && asciiEqual f.extension r.extension

end KeywordIndex
