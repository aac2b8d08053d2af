import KeywordIndex.Storage.Disk
import KeywordIndex.Storage.Memory

namespace KeywordIndex

open Text

/-! # Files of a storage

A storage has a file at a path if it tells its size and reads its bytes there, and the two fit. So it is with
files in memory and with regular files on a disk.
-/

/-- At the path is a file with the content. -/
structure Storage.HasFile (storage : Storage) (path : Path) (content : Bytes) : Prop where
  stat : storage.stat path = .ok ⟨true, false, content.length⟩
  read : storage.read path = .ok content

theorem Storage.HasFile.readText {storage : Storage} {path : Path} {content : Bytes}
    (h : storage.HasFile path content) : storage.readText path = .ok (decode content) := by
  rw [Storage.readText, h.read]
  rfl

theorem MemoryStorage.hasFile {m : MemoryStorage} {path : Path} {f : MemoryFile}
    (h : m.file? path.components = some f) : m.toStorage.HasFile path f.content where
  stat := by simp only [toStorage, MemoryStorage.stat, MemoryStorage.statAt, h]
  read := by simp only [toStorage, MemoryStorage.read, h]

theorem DiskStorage.hasFile {d : DiskStorage} {path : Path} {place : Place} {content : Bytes}
    {executable : Bool} (h : d.find path = .ok (place, .file content executable)) :
    d.toStorage.HasFile path content where
  stat := by
    simp only [toStorage, DiskStorage.stat, h]
    rfl
  read := by
    simp only [toStorage, DiskStorage.read, h]
    rfl

end KeywordIndex
