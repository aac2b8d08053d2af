import KeywordIndex.Index.Basic

namespace KeywordIndex

open Text

/-!
# Views of an index

Lists of names, paths and records that are taken from an index to show it.
-/

/-- Adds a value under its name; names keep the order in which they first came. -/
def addUnder {α β : Type} [DecidableEq α] (name : α) (value : β) : List (α × List β) → List (α × List β)
  | [] => [(name, [value])]
  | (other, values) :: rest =>
    if other = name then (other, values ++ [value]) :: rest
    else (other, values) :: addUnder name value rest

/-- The elements that differ from all before them. -/
def distinct {α : Type} [DecidableEq α] (as : List α) : List α :=
  as.foldl (fun seen a => if a ∈ seen then seen else seen ++ [a]) []

namespace Index

/-- The number of records. -/
def size (index : Index) : Nat := index.files.length

/-- The keys of the records. -/
def keys (index : Index) : List Key := index.files.map (·.key)

/-- The paths of the records that have one. -/
def paths (index : Index) : List Path := index.files.filterMap (·.path)

/-- The number of keywords. -/
def keywordCount (index : Index) : Nat := index.names.size

/-- The lookup names of all keywords, in order. -/
def keywordNames (index : Index) : List String := index.names.names.mergeSort (· ≤ ·)

/-- The records by display name, which is `shown` first. -/
def filesByName (index : Index) (shown : String → String) : List (String × List SourceFile) :=
  index.files.foldl (fun grouped f => addUnder (shown f.displayName) f grouped) []

/-- Puts a record under its path; a path keeps the spelling and the place in which it first came. -/
def putUnderPath (path : Path) (f : SourceFile) :
    List (Path × SourceFile) → List (Path × SourceFile)
  | [] => [(path, f)]
  | (other, g) :: rest =>
    if other.sameAs path then (other, f) :: rest else (other, g) :: putUnderPath path f rest

/-- The records by path. Of several with one path, the last counts. -/
def filesByPath (index : Index) : List (Path × SourceFile) :=
  index.files.foldl
    (fun found f =>
      match f.path with
      | some path => putUnderPath path f found
      | none => found)
    []

/-- The names of all libraries that table files import, each once. -/
def importedLibraries (index : Index) : List String :=
  distinct ((index.files.filter (!·.isLibrary)).flatMap SourceFile.libraryNames)

/-- How a record is named in a summary. -/
def summaryName (f : SourceFile) : String :=
  if f.isLibrary then f.displayName else (f.path.bind Path.fileName?).getD f.displayName

/-- A summary of the index in three lines. -/
def summary (index : Index) : String :=
  let named (files : List SourceFile) := ", ".intercalate (files.map summaryName)
  let (libraries, tables) := index.files.partition (·.isLibrary)
  s!"robot files: {named tables}\nlibraries: {named libraries}\nkeywords: {index.keywordCount}"

end Index

end KeywordIndex
