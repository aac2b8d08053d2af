import KeywordIndex.Storage.Basic

namespace KeywordIndex

open Text

/-!
# Files on a disk

A disk holds files and directories, and directories stay when they are empty. A path is walked name by
name: every step starts from a directory, and `..` goes to the one above. Main statements: `at?_put` and
`at?_remove`, a change at one place is seen there and nowhere else.
-/

/-- The names from the root to a place. -/
abbrev Place := List String

/-- What is found at a place. -/
inductive DiskNode where
  | file (content : Bytes) (executable : Bool)
  | directory
  /-- A device that swallows what is written to it and has nothing to be read. -/
  | sink
  /-- A program of the system. -/
  | program
  deriving DecidableEq

/-- Something on a disk. -/
structure DiskEntry where
  place : Place
  node : DiskNode

/-- The entries of a disk. The root is a directory without being listed. -/
structure DiskStorage where
  entries : List DiskEntry := []

namespace DiskStorage

/-- What is at a place. -/
def at? (d : DiskStorage) (place : Place) : Option DiskNode :=
  if place.isEmpty then some .directory else (d.entries.find? (·.place = place)).map (·.node)

/-- Changes what is at a place. -/
def put (d : DiskStorage) (place : Place) (node : DiskNode) : DiskStorage :=
  ⟨d.entries.filter (·.place ≠ place) ++ [⟨place, node⟩]⟩

/-- Takes away what is at a place. -/
def remove (d : DiskStorage) (place : Place) : DiskStorage := ⟨d.entries.filter (·.place ≠ place)⟩

theorem find?_filter_place (entries : List DiskEntry) (removed place : Place) :
    (entries.filter (·.place ≠ removed)).find? (·.place = place) =
      if place = removed then none else entries.find? (·.place = place) := by
  induction entries with
  | nil => simp
  | cons e entries ih =>
    rw [List.filter_cons, List.find?_cons]
    split <;> grind

theorem at?_remove (d : DiskStorage) {removed : Place} (h : removed ≠ []) (place : Place) :
    (d.remove removed).at? place = if place = removed then none else d.at? place := by
  simp only [at?, remove, find?_filter_place]
  grind

theorem at?_put (d : DiskStorage) {written : Place} (h : written ≠ []) (node : DiskNode)
    (place : Place) :
    (d.put written node).at? place = if place = written then some node else d.at? place := by
  simp only [at?, put, List.find?_append, find?_filter_place]
  grind

/-- No name on a disk has more bytes. -/
def maxNameLength : Nat := 255

/-- All paths that a disk looks at have fewer bytes. -/
def pathLimit : Nat := 4096

/-- Whether a segment names an entry of the directory it stands in. -/
def isName (segment : Segment) : Bool :=
  segment ≠ [] && segment ≠ currentSegment && segment ≠ parentSegment

/-- Walks some segments from a place, and says where they lead to and what is there. -/
def walk (d : DiskStorage) (place : Place) : List Segment → Except StorageFault (Place × DiskNode)
  | [] =>
    match d.at? place with
    | some node => .ok (place, node)
    | none => .error .noSuchFile
  | segment :: rest =>
    match d.at? place with
    | none => .error .noSuchFile
    | some .directory =>
      if segment = parentSegment then d.walk place.dropLast rest
      else if isName segment then
        if maxNameLength < byteLength segment then .error .nameTooLong
        else d.walk (place ++ [String.ofList segment]) rest
      else d.walk place rest
    | some _ => .error .notDirectory

/-- The segments of a path that may be walked. -/
def segments (path : Path) : Except StorageFault (List Segment) :=
  let text := path.text.toList
  if text.isEmpty then .error .noSuchFile
  else if text.contains '\x00' then .error .nullCharacter
  else if pathLimit ≤ byteLength text then .error .nameTooLong
  else .ok (split '/' text)

/-- What is at a path, and its place. -/
def find (d : DiskStorage) (path : Path) : Except StorageFault (Place × DiskNode) := do
  d.walk [] (← segments path)

/-- Whether a directory is at the path. -/
def isDirectory (d : DiskStorage) (path : Path) : Bool :=
  match d.find path with
  | .ok (_, .directory) => true
  | _ => false

/-- Where a path may put a new entry. -/
structure Slot where
  /-- The directory that the entry is in. -/
  directory : Place
  /-- The name of the entry. A path that ends with `.` or `..` has none. -/
  name? : Option String
  /-- Whether a slash follows the name. -/
  slash : Bool

/-- The place of the named entry, or else of the directory. -/
def Slot.place (slot : Slot) : Place :=
  match slot.name? with
  | some name => slot.directory ++ [name]
  | none => slot.directory

/-- Where the path may put a new entry. The directory has to be there, and the entry need not. -/
def slot (d : DiskStorage) (path : Path) : Except StorageFault Slot := do
  let backwards := (← segments path).reverse
  match backwards.dropWhile (·.isEmpty) with
  | [] => .ok ⟨[], none, true⟩
  | last :: outer =>
    match ← d.walk [] outer.reverse with
    | (directory, .directory) =>
      if !isName last then .ok ⟨directory, none, true⟩
      else if maxNameLength < byteLength last then .error .nameTooLong
      else .ok ⟨directory, some (String.ofList last), (backwards.head?.getD []).isEmpty⟩
    | _ => .error .notDirectory

/-- The place of the file that is written by the path, a new one or one that is there. -/
def writablePlace (d : DiskStorage) (path : Path) : Except StorageFault Place := do
  let slot ← d.slot path
  if slot.name?.isNone ∨ slot.slash then .error .isDirectory
  else
    match d.at? slot.place with
    | some .directory => .error .isDirectory
    | _ => .ok slot.place

/-- Puts a content into the file at a place. A file that was there stays as executable as it was. -/
def fill (d : DiskStorage) (place : Place) (content : Bytes) : DiskStorage :=
  match d.at? place with
  | none => d.put place (.file content false)
  | some (.file _ executable) => d.put place (.file content executable)
  | some _ => d

/-- Makes a directory in one that is there. -/
def makeDirectory (d : DiskStorage) (path : Path) : Except StorageFault DiskStorage := do
  let slot ← d.slot path
  match d.at? slot.place with
  | none => .ok (d.put slot.place .directory)
  | some _ => .error .alreadyExists

/-- Makes the first of some directories, each of which is inside the one after it. Those further out are
made as far as they are missing, and stay if a later step fails. -/
def makeDirectories (d : DiskStorage) : List Path → DiskStorage × Option StorageFault
  | [] => (d, none)
  | path :: outer =>
    match d.makeDirectory path with
    | .ok made => (made, none)
    | .error .noSuchFile =>
      match d.makeDirectories outer with
      | (d, some fault) => (d, some fault)
      | (d, none) =>
        match d.makeDirectory path with
        | .ok made => (made, none)
        | .error fault => (d, if d.isDirectory path then none else some fault)
    | .error fault => (d, if d.isDirectory path then none else some fault)

/-- A path and those it is inside of, up to the given number of steps. -/
def outward (path : Path) : Nat → List Path
  | 0 => []
  | steps + 1 =>
    match path.parent? with
    | some parent => path :: outward parent steps
    | none => []

/-- A path and those it is inside of, without the root. -/
def directoriesAbove (path : Path) : List Path := outward path path.components.length

/-- Writes a file, and makes the directories above it. What cannot be written is left out. -/
def write (d : DiskStorage) (path : Path) (content : Bytes) : DiskStorage :=
  let d := (d.makeDirectories ((path.parent?.map directoriesAbove).getD [])).1
  match d.writablePlace path with
  | .ok place => d.fill place content
  | .error _ => d

/-- The name of the entry of a directory that is the given place. -/
def childOf (directory place : Place) : Option String :=
  match place.getLast? with
  | some name => if place.dropLast = directory then some name else none
  | none => none

/-- The names of the entries of a place. -/
def children (d : DiskStorage) (place : Place) : List String :=
  d.entries.filterMap fun entry => childOf place entry.place

/-- The names of the entries of a directory. -/
def list (d : DiskStorage) (path : Path) : Except StorageFault (List String) := do
  match ← d.find path with
  | (place, .directory) => .ok (d.children place)
  | _ => .error .notDirectory

/-- What is known of something found. Directories take up one block. -/
def statOf : DiskNode → FileStat
  | .file content _ => ⟨true, false, content.length⟩
  | .directory => ⟨false, true, 4096⟩
  | .sink => ⟨false, false, 0⟩
  | .program => ⟨true, false, 0⟩

/-- What is at a path. -/
def stat (d : DiskStorage) (path : Path) : Except StorageFault FileStat :=
  (d.find path).map fun (_, node) => statOf node

/-- The bytes that are found in something, unless it is a directory. -/
def contentOf : DiskNode → Except StorageFault Bytes
  | .file content _ => .ok content
  | .directory => .error .isDirectory
  | _ => .ok []

/-- Reads a file. -/
def read (d : DiskStorage) (path : Path) : Except StorageFault Bytes := do
  contentOf (← d.find path).2

/-- Deletes the file at a path. -/
def delete (d : DiskStorage) (path : Path) : DiskStorage :=
  match d.find path with
  | .ok (place, .file _ _) => d.remove place
  | _ => d

/-- The disk as a storage. -/
def toStorage (d : DiskStorage) : Storage where
  read := d.read
  list := d.list
  stat := d.stat
  depth := d.entries.foldl (fun depth entry => max depth entry.place.length) 0

end DiskStorage

end KeywordIndex
