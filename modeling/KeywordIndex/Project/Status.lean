import KeywordIndex.Library.Install

namespace KeywordIndex

open Text

/-!
# Status reports

A report says why a file gets suggestions or not: whether it is indexed, how each imported library came
out, where each imported resource was found, and in which environment the generator ran.
-/

/-- Whether a file takes part. -/
inductive FileState where
  | parsed
  | notIndexed
  | notTable
  | noPath
  | unreadable
  deriving DecidableEq, Repr

/-- The state as it is shown. -/
def FileState.shown : FileState → String
  | parsed => "Parsed/Ok"
  | notIndexed => "Resource is not indexed. Make sure it is part of an open project."
  | notTable => "Resource is not a valid robot file."
  | noPath => "Current file path could not be determined"
  | unreadable => "Error occurred while gathering status"

/-- How an imported library came out. -/
inductive LibraryState where
  | loaded
  | fallback
  | failed
  | unknown
  deriving DecidableEq, Repr

namespace LibraryState

/-- The state as it is shown. -/
def shown : LibraryState → String
  | loaded => "Loaded"
  | fallback => "Loading library failed. Fell back on bundled documentation"
  | failed => "Errors occurred during loading"
  | unknown => "Unknown error occurred while loading library"

/-- The state of a cached entry. -/
def ofEntry : Option LibraryEntry → LibraryState
  | none => unknown
  | some e => if e.isFallback then fallback else if e.isSuccess then loaded else failed

end LibraryState

/-- Whether an imported resource was found. -/
inductive ResourceState where
  | loaded
  | notFound
  | multiple
  deriving DecidableEq, Repr

namespace ResourceState

/-- The state as it is shown. -/
def shown : ResourceState → String
  | loaded => "Loaded"
  | notFound => "Resource could not be found"
  | multiple => "Multiple resources detected"

/-- The state of a resource that was found at some paths. -/
def ofPaths : List Path → ResourceState
  | [] => notFound
  | [_] => loaded
  | _ => multiple

end ResourceState

/-- The report on an imported library. -/
structure LibraryReport where
  name : String
  state : LibraryState
  error : Option String
  path : Option Path
  deriving DecidableEq

/-- The report on an imported resource. -/
structure ResourceReport where
  name : String
  state : ResourceState
  /-- Where it was found. -/
  paths : List Path
  deriving DecidableEq

/-- The report on a file. -/
structure StatusReport where
  state : FileState
  error : Option String := none
  name : Option String := none
  path : Option Path
  libraries : List LibraryReport := []
  resources : List ResourceReport := []
  environment : Environment
  deriving DecidableEq

/-! ## Making a report -/

/-- The report on an imported library. -/
def reportLibrary (cache : LibraryCache) (l : LibraryImport) : LibraryReport :=
  let entry := cache.entry? l.name
  ⟨l.name, .ofEntry entry, entry.bind (·.message), entry.bind (·.document)⟩

/-- The paths of an imported resource: that of the linked record if it is indexed, and otherwise those of
all records with the name and extension that the import declares. -/
def resourcePaths (index : Index) (r : ResourceImport) : List Path :=
  match r.resolved.bind index.file? with
  | some target => target.path.toList
  | none => (index.files.filter r.matchesName).filterMap (·.path)

/-- The report on an imported resource. -/
def reportResource (index : Index) (r : ResourceImport) : ResourceReport :=
  let paths := resourcePaths index r
  ⟨r.name, .ofPaths paths, paths⟩

/-- The report on the file at a path. Whether a file that is not indexed is a table file is found out by
`isTable`. -/
def reportStatus (index : Index) (cache : LibraryCache) (path? : Option Path)
    (isTable : Path → Except Error Bool) : StatusReport :=
  let blank : StatusReport :=
    { state := .noPath, path := path?, environment := cache.environment }
  match path? with
  | none => blank
  | some path =>
    match index.fileByPath? path with
    | some f =>
      { blank with
        state := .parsed
        name := some f.displayName
        libraries := f.libraries.map (reportLibrary cache)
        resources := f.resources.map (reportResource index) }
    | none =>
      match isTable path with
      | .ok true => { blank with state := .notIndexed }
      | .ok false => { blank with state := .notTable }
      | .error e => { blank with state := .unreadable, error := some e.message }

/-! ## Showing a report -/

/-- The blanks before a line at the given depth. -/
def indent (depth : Nat) : String := String.ofList (List.replicate (4 * depth) ' ')

/-- The lines of a text, each without the blanks around it and at the given depth. -/
def indented (depth : Nat) (text : String) : List String :=
  (lines text.toList).map fun line => indent depth ++ String.ofList (trim line)

/-- A path as it is shown, if there is one. -/
def shownPath (path? : Option Path) : String :=
  match path? with
  | some path => path.text
  | none => notAvailable

/-- The lines on an error at the given depth. -/
def shownError (depth : Nat) : Option String → List String
  | some error => indented depth "Error:" ++ indented (depth + 1) error
  | none => []

/-- The lines on a library. -/
def LibraryReport.lines (r : LibraryReport) : List String :=
  indented 1 r.name ++ indented 2 ("Status: " ++ r.state.shown) ++ shownError 2 r.error ++
    indented 2 ("Path: " ++ shownPath r.path)

/-- The lines on a resource. -/
def ResourceReport.lines (r : ResourceReport) : List String :=
  indented 1 r.name ++ indented 2 ("Status: " ++ r.state.shown) ++
    if r.state = .multiple then
      indented 2 "Paths:" ++ r.paths.flatMap fun path => indented 3 path.text
    else indented 2 ("Path: " ++ shownPath r.paths.head?)

/-- A line of the environment, which is kept as it is. -/
def environmentLine (name value : String) : String := indent 1 ++ name ++ ": " ++ value

/-- The lines on an environment. -/
def Environment.lines (e : Environment) : List String :=
  indented 0 "Environment" ++ [environmentLine "Status" (if e.isSuccess then "Ok" else "Error")] ++
    (if e.message.isEmpty then [] else shownError 1 (some e.message)) ++
    [environmentLine "Executable" e.executable, environmentLine "Version" e.interpreterVersion,
      environmentLine "Platform" e.platform] ++
    e.pathVariables.map (fun (name, value) => environmentLine name value) ++
    indented 1 "Module search path:" ++ e.modulePaths.flatMap (indented 2)

namespace StatusReport

/-- The lines under a heading, or what is said if there are none. -/
def sectionLines (heading ifEmpty : String) (found : List (List String)) : List String :=
  indented 0 heading ++ if found.isEmpty then indented 1 ifEmpty else found.flatten

/-- The report as text. -/
def render (r : StatusReport) : String :=
  let shown :=
    indented 0 ("Status: " ++ r.state.shown) ++ shownError 0 r.error ++
      indented 0 ("Name: " ++ r.name.getD notAvailable) ++
      indented 0 ("Path: " ++ shownPath r.path) ++
      sectionLines "Libraries" "No libraries imported" (r.libraries.map LibraryReport.lines) ++
      sectionLines "Resources" "No resources imported" (r.resources.map ResourceReport.lines) ++
      r.environment.lines
  String.join (shown.map (· ++ "\n"))

end StatusReport

end KeywordIndex
