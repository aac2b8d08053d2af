import KeywordIndex.Project.Coalescer
import KeywordIndex.Project.Loader
import KeywordIndex.Project.Status
import KeywordIndex.Query.Suggestion

namespace KeywordIndex

open Text

/-!
# Workspaces

A workspace keeps the index of some open projects up to date. A reload builds a new index aside and puts
it in place at the end. File events that arrive meanwhile change the index in use, and are replayed on
the new one before it takes that place.

Reloads and refreshes of the libraries need the documentation generator, which takes its time and may
see further events. So an operation on a workspace either is done with an answer or waits for the
generator with a task, and is resumed with what came of the request. Requests that are made while a
reload or a refresh waits are folded into one run after it.
-/

/-- The life of the set of projects. -/
inductive LoadState where
  | initial
  | loading
  | loaded
  deriving DecidableEq, Repr

/-- The state as it is shown. -/
def LoadState.shown : LoadState → String
  | initial => "project-initial"
  | loading => "project-loading"
  | loaded => "project-loaded"

/-- What came of a request to reload. -/
inductive ReloadOutcome where
  | reloaded
  /-- Another reload was in progress, and one after it will serve the request. -/
  | scheduled
  /-- Some projects could not be loaded. -/
  | failed (message : String)
  deriving DecidableEq, Repr

/-- A change to a file. -/
inductive FileEvent where
  | update (path : Path) (content : List Char)
  /-- A file, or a directory with all that it holds, is gone. -/
  | remove (path : Path)
  deriving DecidableEq

/-- The state of a workspace. -/
structure Workspace where
  settings : Settings
  patterns : List Glob.Pattern
  roots : List Path := []
  index : Index := {}
  cache : LibraryCache := {}
  /-- The library documents found by the last scan. -/
  projectDocuments : List Path := []
  state : LoadState := .initial
  /-- The events since a reload began to build its index, while there is one. -/
  staged : Option (List FileEvent) := none
  reloads : Coalescer := .idle
  refreshes : Coalescer := .idle

/-- What an operation answers. -/
inductive Answer where
  | outcome (outcome : ReloadOutcome)
  /-- The key of an updated file, if it is indexed. -/
  | indexed (key : Option Key)
  deriving DecidableEq

/-- What is left to do after a refresh. -/
inductive AfterRefresh where
  | endReload (outcome : ReloadOutcome)
  | endUpdate (key : Key)
  deriving DecidableEq

/-- What a request to the generator is made for. -/
inductive Purpose where
  /-- A reload that has built the index `staging`, with the errors of projects that could not be loaded. -/
  | reload (staging : Index) (errors : List String)
  | refresh (next : AfterRefresh)

/-- An operation that waits for the generator. -/
structure Task where
  /-- The requested libraries. -/
  names : List String
  purpose : Purpose

/-- How far an operation has come. -/
inductive Progress where
  | done (w : Workspace) (answer : Answer)
  | waiting (w : Workspace) (task : Task)

namespace Workspace

/-- A workspace without projects. -/
def ofSettings (settings : Settings) : Except Error Workspace :=
  match settings.patterns with
  | .ok patterns => .ok { settings := settings, patterns := patterns }
  | .error fault => .error (.pattern fault)

/-- The loader of the workspace. -/
def loader (w : Workspace) (storage : Storage) : Loader := ⟨storage, w.settings, w.patterns⟩

/-- The libraries that an index needs. -/
def needed (w : Workspace) (index : Index) : List String :=
  neededLibraries index w.settings.baseLibrary

/-! ## File events on an index -/

/-- Takes new content of a file into an index. The answer is the key of the file, if it is indexed, and
whether its imports of libraries changed. -/
def applyUpdate (w : Workspace) (storage : Storage) (path : Path) (content : List Char)
    (index : Index) : Index × Option (Key × Bool) :=
  let l := w.loader storage
  if w.settings.sizeLimit ≤ byteLength content then (index.remove path.normalize.key, none)
  else if l.isGenerated path then (index, none)
  else if !isTableFile content path w.settings.tableExtensions then
    (index.remove path.normalize.key, none)
  else
    let previous := index.fileByPath? path
    let f := SourceFile.ofTable (Robot.parse content) path
    let added := index.add f
    let (resolved, _) :=
      if previous.isNone then l.resolveImports added else l.resolveFileImports f.key added
    (resolved, some (f.key, (resolved.file? f.key).any (importsChanged previous)))

/-- Applies an event to an index. -/
def applyEvent (w : Workspace) (storage : Storage) (index : Index) : FileEvent → Index
  | .update path content => (w.applyUpdate storage path content index).1
  | .remove path => index.reset (some path)

/-- Keeps an event for the reload that is building its index, if there is one. -/
def record (w : Workspace) (event : FileEvent) : Workspace :=
  { w with staged := w.staged.map (· ++ [event]) }

/-! ## Asking the generator -/

/-- The documents that come with the program. -/
def bundledDocuments (w : Workspace) (storage : Storage) : List Path :=
  match w.settings.fallbackDirectory with
  | none => []
  | some directory =>
    match storage.list directory with
    | .error _ => []
    | .ok names =>
      let isDocument (name : String) : Bool :=
        match (Path.mk name).extension? with
        | some extension => asciiEqual extension documentExtension
        | none => false
      ((names.mergeSort (· ≤ ·)).filter isDocument).map fun name => directory.join ⟨name⟩

/-- Waits for the generator: registers the fallbacks anew and forgets libraries that are not needed. -/
def ask (w : Workspace) (storage : Storage) (task : Task) : Progress :=
  let cache :=
    ((w.cache.clearFallbacks.addFallbacks (w.bundledDocuments storage)).addFallbacks
      w.projectDocuments).keepOnly task.names
  .waiting { w with cache := cache } task

/-- The request of a task. -/
def request (w : Workspace) (task : Task) : GeneratorRequest where
  executable := w.settings.executable
  names := task.names
  modulePaths := w.settings.modulePaths
  outputDirectory := w.settings.documentDirectory

/-- Takes what came of a request into the cache, and reads the documents. -/
def takeIn (w : Workspace) (storage : Storage) (names : List String) (acquisition : Acquisition) :
    Workspace × List LoadedLibrary :=
  let (cache, loaded) := ((w.cache.apply acquisition).1.applyFallbacks names).load storage
  ({ w with cache := cache }, loaded)

/-! ## Reloading -/

/-- Scans the open projects one after another. -/
def scanRoots (l : Loader) : List Path → Index → Index × List Path × List String
  | [], index => (index, [], [])
  | root :: rest, index =>
    match l.scan root index with
    | .ok found =>
      let (index, documents, errors) := scanRoots l rest found.index
      (index, found.documents ++ documents, errors)
    | .error e =>
      let (index, documents, errors) := scanRoots l rest index
      (index, documents, e.message :: errors)

/-- Begins a reload that has been admitted. -/
def beginReload (w : Workspace) (storage : Storage) : Progress :=
  let l := w.loader storage
  let (scanned, documents, errors) := scanRoots l w.roots {}
  let (staging, _) := l.resolveImports scanned
  let w := { w with state := .loading, staged := some [], projectDocuments := documents }
  w.ask storage ⟨w.needed staging, .reload staging errors⟩

/-- Ends a reload, and begins another one if it was requested meanwhile. -/
def endReload (w : Workspace) (storage : Storage) (outcome : ReloadOutcome) : Progress :=
  let (reloads, again) := w.reloads.finish
  let w := { w with reloads := reloads }
  if again then w.beginReload storage else .done w (.outcome outcome)

/-- Goes on after a refresh. -/
def continueWith (w : Workspace) (storage : Storage) : AfterRefresh → Progress
  | .endReload outcome => w.endReload storage outcome
  | .endUpdate key => .done w (.indexed (some key))

/-! ## Refreshing the libraries -/

/-- Begins a refresh that has been admitted. -/
def beginRefresh (w : Workspace) (storage : Storage) (next : AfterRefresh) : Progress :=
  w.ask storage ⟨w.needed w.index, .refresh next⟩

/-- Requests a refresh, and goes on. -/
def refresh (w : Workspace) (storage : Storage) (next : AfterRefresh) : Progress :=
  match w.refreshes.begin with
  | (refreshes, .run) => { w with refreshes := refreshes }.beginRefresh storage next
  | (refreshes, .scheduled) => { w with refreshes := refreshes }.continueWith storage next

/-- Ends a refresh, and begins another one if it was requested meanwhile. -/
def endRefresh (w : Workspace) (storage : Storage) (next : AfterRefresh) : Progress :=
  let (refreshes, again) := w.refreshes.finish
  let w := { w with refreshes := refreshes }
  if again then w.beginRefresh storage next else w.continueWith storage next

/-! ## Going on after the generator -/

/-- Replays the events of a reload on its index. -/
def replay (w : Workspace) (storage : Storage) (staging : Index) : Index :=
  (w.staged.getD []).foldl (w.applyEvent storage) staging

/-- What came of a reload with the given errors. -/
def outcomeOf (errors : List String) : ReloadOutcome :=
  if errors.isEmpty then .reloaded else .failed ("\n".intercalate errors)

/-- Puts the index of a reload in place. If the replayed events changed the needed libraries, they are
refreshed. -/
def installStaging (w : Workspace) (storage : Storage) (names : List String) (staging : Index)
    (outcome : ReloadOutcome) : Progress :=
  let index := w.replay storage staging
  let w := { w with index := index, staged := none, state := .loaded }
  if sameElements (w.needed index) names then w.endReload storage outcome
  else w.refresh storage (.endReload outcome)

/-- Resumes a task with what came of its request. -/
def resume (w : Workspace) (storage : Storage) (task : Task) (acquisition : Acquisition) : Progress :=
  let (w, loaded) := w.takeIn storage task.names acquisition
  match task.purpose with
  | .reload staging errors =>
    w.installStaging storage task.names (staging.install loaded) (outcomeOf errors)
  | .refresh next => { w with index := w.index.install loaded }.endRefresh storage next

/-! ## Operations -/

/-- Requests a reload of all projects. -/
def reload (w : Workspace) (storage : Storage) : Progress :=
  match w.reloads.begin with
  | (reloads, .run) => { w with reloads := reloads }.beginReload storage
  | (reloads, .scheduled) => .done { w with reloads := reloads } (.outcome .scheduled)

/-- Opens a project. -/
def openProject (w : Workspace) (storage : Storage) (root : Path) : Progress :=
  let roots := if w.roots.any (·.sameAs root) then w.roots else w.roots ++ [root]
  { w with roots := roots }.reload storage

/-- A file, or a directory with all that it holds, is gone. -/
def removeFile (w : Workspace) (path : Path) : Workspace :=
  { w with index := w.index.reset (some path) }.record (.remove path)

/-- Closes a project. -/
def closeProject (w : Workspace) (storage : Storage) (root : Path) : Progress :=
  if w.roots.any (·.sameAs root) then
    let w := { w with roots := w.roots.filter (!·.sameAs root) }
    (w.removeFile root).reload storage
  else .done w (.outcome .reloaded)

/-- A file has new content. Libraries are refreshed if its imports of them changed, unless a reload is
under way, which will see the event. -/
def updateFile (w : Workspace) (storage : Storage) (path : Path) (content : List Char) : Progress :=
  let (index, applied) := w.applyUpdate storage path content w.index
  let w := { w with index := index }.record (.update path content)
  match applied with
  | none => .done w (.indexed none)
  | some (key, changed) =>
    if changed && w.staged.isNone then w.refresh storage (.endUpdate key)
    else .done w (.indexed (some key))

/-- Reads the content of a file anew. -/
def reloadFile (w : Workspace) (storage : Storage) (path : Path) : Except Error Progress :=
  match (w.loader storage).readLimited path with
  | .ok content => .ok (w.updateFile storage path content)
  | .error e => .error e

/-! ## Queries -/

/-- All suggestions for a text typed in the file at `path`. -/
def suggestions (w : Workspace) (path : Option Path) (typed : List Char) : List Query.Suggestion :=
  Query.suggestions w.index w.settings.queryOptions path typed

/-- All suggestions at a byte column of a line. -/
def suggestionsAt (w : Workspace) (path : Option Path) (line : List Char) (column : Nat) :
    List Query.Suggestion :=
  w.suggestions path (Query.typedText line column)

/-- The report on a file. -/
def status (w : Workspace) (storage : Storage) (path? : Option Path) : StatusReport :=
  reportStatus w.index w.cache path? fun path =>
    match storage.readText path with
    | .ok text => .ok (isTableText text)
    | .error fault => .error (.unreadable path fault)

end Workspace

end KeywordIndex
