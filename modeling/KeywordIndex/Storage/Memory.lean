import KeywordIndex.Storage.Basic

namespace KeywordIndex

open Text

/-!
# Files in memory

The files are kept in the order of the components of their paths, and a directory is there as long as
some file lies below it. The paths of files need not be texts.
-/

/-- A file in memory. -/
structure MemoryFile where
  path : List Component
  content : Bytes

/-- Files in memory, in the order of their paths. -/
structure MemoryStorage where
  files : List MemoryFile := []

namespace MemoryStorage

/-- Puts a file in its place, replacing one that is there. -/
def putIn (file : MemoryFile) : List MemoryFile → List MemoryFile
  | [] => [file]
  | other :: rest =>
    match compare file.path other.path with
    | .lt => file :: other :: rest
    | .eq => file :: rest
    | .gt => other :: putIn file rest

/-- Writes a file at the place with the given components. -/
def writeAt (m : MemoryStorage) (path : List Component) (content : Bytes) : MemoryStorage :=
  ⟨putIn ⟨path, content⟩ m.files⟩

/-- Writes a file. -/
def write (m : MemoryStorage) (path : Path) (content : Bytes) : MemoryStorage :=
  m.writeAt path.components content

theorem find?_putIn (file : MemoryFile) (files : List MemoryFile) (path : List Component) :
    (putIn file files).find? (·.path = path) =
      if file.path = path then some file else files.find? (·.path = path) := by
  induction files with
  | nil => simp [putIn]
  | cons other rest ih =>
    rw [putIn]
    split
    · simp only [List.find?_cons]
      grind
    · next h =>
      have := Std.LawfulEqOrd.eq_of_compare h
      grind
    · grind

/-- Deletes the file with the given components. -/
def deleteAt (m : MemoryStorage) (path : List Component) : MemoryStorage :=
  ⟨m.files.filter (·.path ≠ path)⟩

/-- Deletes the file at the path. -/
def delete (m : MemoryStorage) (path : Path) : MemoryStorage := m.deleteAt path.components

/-- The file with the given components. -/
def file? (m : MemoryStorage) (path : List Component) : Option MemoryFile :=
  m.files.find? (·.path = path)

/-- Writing a file changes what is found at its path and nothing else. -/
theorem file?_write (m : MemoryStorage) (written : Path) (content : Bytes) (path : List Component) :
    (m.write written content).file? path =
      if written.components = path then some ⟨path, content⟩ else m.file? path := by
  simp only [write, writeAt, file?, find?_putIn]
  split <;> simp_all

/-- The component after the given ones. -/
def next? : (directory path : List Component) → Option Component
  | [], c :: _ => some c
  | [], [] => none
  | a :: directory, b :: path => if a = b then next? directory path else none
  | _ :: _, [] => none

/-- The names without those that are equal to the one before. -/
def dropRepeated : List String → List String
  | [] => []
  | [name] => [name]
  | a :: b :: rest => if a = b then dropRepeated (b :: rest) else a :: dropRepeated (b :: rest)

/-- The names of the entries of a directory as texts. A name that is not UTF-8 is listed with its bytes
replaced, so nothing need be found by it. -/
def listAt (m : MemoryStorage) (directory : List Component) : Except StorageFault (List String) :=
  match m.files.filterMap fun f => (next? directory f.path).map Component.text with
  | [] => .error .absent
  | names => .ok (dropRepeated names)

/-- The names of the entries of a directory. -/
def list (m : MemoryStorage) (path : Path) : Except StorageFault (List String) := m.listAt path.components

/-- What is at the place with the given components. -/
def statAt (m : MemoryStorage) (path : List Component) : Except StorageFault FileStat :=
  match m.file? path with
  | some f => .ok ⟨true, false, f.content.length⟩
  | none =>
    if m.files.any fun f => (next? path f.path).isSome then .ok ⟨false, true, 0⟩
    else .error .absent

/-- What is at a path. -/
def stat (m : MemoryStorage) (path : Path) : Except StorageFault FileStat := m.statAt path.components

/-- Reads a file. -/
def read (m : MemoryStorage) (path : Path) : Except StorageFault Bytes :=
  match m.file? path.components with
  | some f => .ok f.content
  | none => .error .absent

/-- The files as a storage. -/
def toStorage (m : MemoryStorage) : Storage where
  read := m.read
  list := m.list
  stat := m.stat
  depth := m.files.foldl (fun depth f => max depth f.path.length) 0

end MemoryStorage

end KeywordIndex
