import KeywordIndex.Path.Basic
import KeywordIndex.Text.Utf8

namespace KeywordIndex

open Text

/-!
# Storage

Sources are read through a storage, which may be a disk or hold all its files in memory. A storage
answers questions about one state of its files.
-/

/-- Why a storage cannot answer. -/
inductive StorageFault where
  /-- A storage in memory has nothing at the path. -/
  | absent
  /-- The root of a project is not a directory. -/
  | rootNotDirectory
  /-- A disk has nothing at the path. -/
  | noSuchFile
  | isDirectory
  | notDirectory
  | alreadyExists
  /-- A directory with entries is not removed. -/
  | notEmpty
  /-- Names and paths on a disk have bounds. -/
  | nameTooLong
  /-- Paths on a disk end at a null character and cannot hold one. -/
  | nullCharacter
  deriving DecidableEq, Repr

/-- What the fault is called. -/
def StorageFault.reason : StorageFault → String
  | absent => "entity not found"
  | rootNotDirectory => "not a directory"
  | noSuchFile => "No such file or directory"
  | alreadyExists => "File exists"
  | notDirectory => "Not a directory"
  | isDirectory => "Is a directory"
  | nameTooLong => "File name too long"
  | notEmpty => "Directory not empty"
  | nullCharacter => "file name contained an unexpected NUL byte"

/-- The number under which the system knows the fault. -/
def StorageFault.number? : StorageFault → Option Nat
  | noSuchFile => some 2
  | alreadyExists => some 17
  | notDirectory => some 20
  | isDirectory => some 21
  | nameTooLong => some 36
  | notEmpty => some 39
  | _ => none

/-- The reported text. -/
def StorageFault.message (f : StorageFault) : String :=
  match f.number? with
  | some n => s!"{f.reason} (os error {n})"
  | none => f.reason

/-- What is at a path. -/
structure FileStat where
  isFile : Bool
  isDirectory : Bool
  /-- The number of bytes. -/
  size : Nat
  deriving DecidableEq, Repr

/-- A state of some files. -/
structure Storage where
  read : Path → Except StorageFault Bytes
  /-- The names of the entries of a directory. -/
  list : Path → Except StorageFault (List String)
  stat : Path → Except StorageFault FileStat
  /-- No directory lies below another by more steps. -/
  depth : Nat

namespace Storage

/-- Whether a file is at the path. -/
def isFile (s : Storage) (path : Path) : Bool :=
  match s.stat path with
  | .ok found => found.isFile
  | .error _ => false

/-- Reads a file as text. -/
def readText (s : Storage) (path : Path) : Except StorageFault (List Char) := (s.read path).map decode

end Storage

end KeywordIndex
