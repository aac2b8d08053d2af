import KeywordIndex.Index.Views
import KeywordIndex.Library.Cache

namespace KeywordIndex

/-!
# Libraries of an index

The names of the libraries that an index needs, and the records of those that were loaded.
-/

/-- Whether two lists have the same elements. -/
def sameElements (as bs : List String) : Bool := as.all bs.contains && bs.all as.contains

/-- The libraries to acquire for an index: the base library and all that table files import. -/
def neededLibraries (index : Index) (baseLibrary : String) : List String :=
  distinct (baseLibrary :: index.importedLibraries)

/-- Whether a record imports other libraries than the one before it. -/
def importsChanged (previous? : Option SourceFile) (f : SourceFile) : Bool :=
  let before :=
    match previous? with
    | some previous => previous.libraryNames
    | none => []
  !sameElements before f.libraryNames

namespace Index

/-- Removes the records of all libraries. -/
def removeLibraries (index : Index) : Index :=
  ((index.files.filter (·.isLibrary)).map (·.key)).foldl Index.remove index

/-- Adds the record of a loaded library. -/
def addLoaded (index : Index) (library : LoadedLibrary) : Index :=
  index.add (.ofLibrary library.outline library.name (some library.document) library.source)

/-- Replaces the records of all libraries by those of the loaded ones. -/
def install (index : Index) (loaded : List LoadedLibrary) : Index :=
  loaded.foldl addLoaded index.removeLibraries

end Index

end KeywordIndex
