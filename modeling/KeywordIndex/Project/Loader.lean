import KeywordIndex.Error
import KeywordIndex.Index.Imports
import KeywordIndex.Recognition
import KeywordIndex.Robot.Source
import KeywordIndex.Settings

namespace KeywordIndex

open Text

/-!
# Loading projects

The entries of a directory are visited one at a time in the order of their names. Excluded names and the
output directory of the generator are passed over. What cannot be read or is too large is skipped and
ends no scan.
-/

/-- Reads sources from a storage. -/
structure Loader where
  storage : Storage
  settings : Settings
  patterns : List Glob.Pattern

/-- What loading one file did. -/
inductive Loaded where
  | table (key : Key)
  /-- A library document, which may stand in for a generated one. -/
  | document (path : Path)
  | notApplicable
  deriving DecidableEq

/-- What was met in a scan so far. -/
structure Scan where
  index : Index
  indexed : Nat := 0
  skipped : Nat := 0
  documents : List Path := []

namespace Loader

/-! ## One file -/

/-- Whether the name matches an exclude glob. -/
def isExcluded (l : Loader) (name : String) : Bool := l.patterns.any (·.matches name.toList)

/-- Whether a file with this extension may be a source. -/
def isCandidate (l : Loader) (path : Path) : Bool :=
  match path.lowerExtension? with
  | none => false
  | some extension =>
    extension == tableExtension ||
      (extension == documentExtension && l.settings.usesProjectDocuments) ||
      l.settings.tableExtensions.any (isListedExtension extension)

/-- Whether the path lies in the output directory of the generator. -/
def isGenerated (l : Loader) (path : Path) : Bool :=
  let directory := l.settings.documentDirectory
  !directory.text.isEmpty && path.key.isWithin directory.key

/-- Reads a file that is below the size limit. -/
def readLimited (l : Loader) (path : Path) : Except Error (List Char) :=
  match l.storage.stat path with
  | .error fault => .error (.unreadable path fault)
  | .ok found =>
    if l.settings.sizeLimit ≤ found.size then
      .error (.tooLarge path found.size l.settings.sizeLimit)
    else (l.storage.readText path).mapError (.unreadable path)

/-- Indexes a file that is a table file, and says what the file is. -/
def loadFile (l : Loader) (path : Path) (index : Index) : Except Error (Index × Loaded) :=
  if !l.isCandidate path || l.isGenerated path then .ok (index, .notApplicable)
  else
    match l.readLimited path with
    | .error e => .error e
    | .ok content =>
      let found := classify content path l.settings.tableExtensions
      if found.isTable then
        let f := SourceFile.ofTable (Robot.parse content) path
        .ok (index.add f, .table f.key)
      else if found.isDocument && l.settings.usesProjectDocuments then .ok (index, .document path)
      else .ok (index, .notApplicable)

/-! ## Directories -/

/-- Visits a file. -/
def visitFile (l : Loader) (path : Path) (s : Scan) : Scan :=
  match l.loadFile path s.index with
  | .error _ => { s with skipped := s.skipped + 1 }
  | .ok (index, .table _) => { s with index := index, indexed := s.indexed + 1 }
  | .ok (_, .document path) => { s with documents := s.documents ++ [path] }
  | .ok (_, .notApplicable) => s

/-- Visits an entry of a directory; `visitBelow` visits a directory. -/
def visitEntry (l : Loader) (visitBelow : Path → Scan → Scan) (directory : Path) (s : Scan)
    (name : String) : Scan :=
  let path := directory.join ⟨name⟩
  if l.isExcluded name || l.isGenerated path then s
  else
    match l.storage.stat path with
    | .error _ => { s with skipped := s.skipped + 1 }
    | .ok found =>
      if found.isDirectory then visitBelow path s
      else if found.isFile then l.visitFile path s
      else s

/-- Visits a directory and at most `depth` levels of directories in it. -/
def visitDirectory (l : Loader) (depth : Nat) (directory : Path) (s : Scan) : Scan :=
  match l.storage.list directory with
  | .error _ => { s with skipped := s.skipped + 1 }
  | .ok names =>
    let visitBelow :=
      match depth with
      | 0 => fun _ s => s
      | depth + 1 => l.visitDirectory depth
    (names.mergeSort (· ≤ ·)).foldl (l.visitEntry visitBelow directory) s

/-- Indexes every table file below a root. -/
def scan (l : Loader) (root : Path) (index : Index) : Except Error Scan :=
  match l.storage.stat root with
  | .error fault => .error (.unreadable root fault)
  | .ok found =>
    if found.isDirectory then .ok (l.visitDirectory l.storage.depth root { index := index })
    else .error (.unreadable root .rootNotDirectory)

/-! ## Imports -/

/-- Indexes table files that are imported but not indexed, and counts them. -/
def loadMissing (l : Loader) (missing : List Path) (index : Index) : Index × Nat :=
  missing.foldl
    (fun (index, added) path =>
      match l.loadFile path index with
      | .ok (index, .table _) => (index, added + 1)
      | _ => (index, added))
    (index, 0)

/-- Resolves in two passes: what the first finds missing is indexed, and if anything was, there is a
second one. -/
def resolveTwice (l : Loader) (pass : Index → Resolution) (index : Index) : Index × Nat :=
  let first := pass index
  let (index, added) := l.loadMissing first.missing first.index
  (if added = 0 then index else (pass index).index, added)

/-- Resolves the imports of every record, and counts the files that were indexed for it. -/
def resolveImports (l : Loader) (index : Index) : Index × Nat :=
  l.resolveTwice (·.resolveAll l.storage.isFile) index

/-- Resolves the imports of one record, and counts the files that were indexed for it. -/
def resolveFileImports (l : Loader) (key : Key) (index : Index) : Index × Nat :=
  l.resolveTwice (·.resolve l.storage.isFile key) index

end Loader

end KeywordIndex
