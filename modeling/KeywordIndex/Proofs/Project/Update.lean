import KeywordIndex.Project.Workspace
import KeywordIndex.Proofs.Project.Loading

namespace KeywordIndex

open Text

/-! # What a file event does to an index

An accepted update puts the record of its content under the key of its path, and may fill other keys with
missing files. Links aside it changes no other record (`unlinked?_updated_of_ne`). Whose imports are
linked anew depends on whether the file was indexed before: all, if it was not, and otherwise its own. A
rejected update and a removal only take records away.
-/

namespace Index

/-- A removal takes away what is within its path. -/
theorem file?_reset (index : Index) (path : Path) (key : Key) :
    (index.reset (some path)).file? key =
      if key.isWithin path.key then none else index.file? key := by
  simp only [reset, removeWithin, rebuild, file?, List.find?_filter, Path.key_normalize]
  split
  · next hwithin =>
    refine List.find?_eq_none.mpr fun f _ h => ?_
    simp only [decide_eq_true_eq, Bool.not_eq_true'] at h
    rw [h.2, hwithin] at h
    exact absurd h.1 (by simp)
  · next houtside =>
    congr 1
    funext f
    by_cases hkey : f.key = key <;> simp [hkey, houtside]

theorem file?_of_reset {index : Index} {path : Path} {key : Key} {f : SourceFile}
    (h : (index.reset (some path)).file? key = some f) : index.file? key = some f := by
  rw [file?_reset] at h
  split at h
  · cases h
  · exact h

end Index

namespace Workspace

variable {w : Workspace} {storage : Storage} {path : Path} {content : List Char} {index : Index}

/-- Whether new content of a file is taken into an index. -/
def accepts (w : Workspace) (path : Path) (content : List Char) : Bool :=
  !(w.settings.sizeLimit ≤ byteLength content) && !w.settings.generates path.key &&
    isTableFile content path w.settings.tableExtensions

/-- The index after an accepted update. -/
def updated (w : Workspace) (storage : Storage) (path : Path) (content : List Char) (index : Index) :
    Index :=
  let added := index.add (.ofTable (Robot.parse content) path)
  if (index.file? path.key).isNone then ((w.loader storage).resolveImports added).1
  else ((w.loader storage).resolveFileImports path.key added).1

/-! ## Accepted updates -/

/-- Under its own key an accepted update leaves the record of its content, linked. -/
theorem file?_updated_self (w : Workspace) (storage : Storage) (path : Path) (content : List Char)
    (index : Index) :
    (w.updated storage path content index).file? path.key =
      some ((w.updated storage path content index).linked storage.isFile
        (.ofTable (Robot.parse content) path)) := by
  have hadded : (index.add (.ofTable (Robot.parse content) path)).file? path.key =
      some (.ofTable (Robot.parse content) path) := by
    rw [Index.file?_add, if_pos (SourceFile.key_ofTable _ _)]
  have hcontains : (index.add (.ofTable (Robot.parse content) path)).contains path.key = true := by
    rw [Index.contains, hadded]
    rfl
  unfold updated
  split
  · obtain ⟨f?, hf, hfile⟩ := (w.loader storage).file?_resolveImports
      (index.add (.ofTable (Robot.parse content) path)) path.key
    rw [hfile, hf.eq_of_contains hcontains, hadded]
    rfl
  · obtain ⟨f?, hf, hfile⟩ := (w.loader storage).file?_resolveFileImports path.key
      (index.add (.ofTable (Robot.parse content) path)) path.key
    rw [hfile, hf.eq_of_contains hcontains, hadded]
    simp only [Option.map_some, if_true]
    rfl

/-- Under another key it leaves what was there or the record of a missing file, and links it if the updated
file was not indexed before. -/
theorem file?_updated_of_ne (w : Workspace) (storage : Storage) (content : List Char) (index : Index)
    {key : Key} (h : key ≠ path.key) :
    ∃ f?, (w.loader storage).Fills index key f? ∧
      (w.updated storage path content index).file? key =
        f?.map fun f =>
          if (index.file? path.key).isNone then
            (w.updated storage path content index).linked storage.isFile f
          else f := by
  have hadded : (index.add (.ofTable (Robot.parse content) path)).file? key = index.file? key := by
    rw [Index.file?_add, SourceFile.key_ofTable, if_neg h.symm]
  have hfills {f? : Option SourceFile}
      (hf : (w.loader storage).Fills (index.add (.ofTable (Robot.parse content) path)) key f?) :
      (w.loader storage).Fills index key f? := by
    unfold Loader.Fills Index.contains at hf ⊢
    rwa [hadded] at hf
  unfold updated
  split
  · next hnew =>
    obtain ⟨f?, hf, hfile⟩ := (w.loader storage).file?_resolveImports
      (index.add (.ofTable (Robot.parse content) path)) key
    exact ⟨f?, hfills hf, hfile⟩
  · next hold =>
    obtain ⟨f?, hf, hfile⟩ := (w.loader storage).file?_resolveFileImports path.key
      (index.add (.ofTable (Robot.parse content) path)) key
    refine ⟨f?, hfills hf, ?_⟩
    rw [hfile]
    simp [h]

theorem unlinked?_updated_self (w : Workspace) (storage : Storage) (path : Path) (content : List Char)
    (index : Index) :
    (w.updated storage path content index).unlinked? path.key =
      some (.ofTable (Robot.parse content) path) := by
  rw [Index.unlinked?, file?_updated_self]
  simp

/-- Links aside, an accepted update of one file leaves what is under other keys, unless there was
nothing. -/
theorem unlinked?_updated_of_ne (w : Workspace) (storage : Storage) (content : List Char)
    (index : Index) {key : Key} (h : key ≠ path.key) :
    ∃ f?, (w.loader storage).Fills index key f? ∧
      (w.updated storage path content index).unlinked? key = f?.map SourceFile.unlinked := by
  obtain ⟨f?, hf, hfile⟩ := file?_updated_of_ne w storage content index h
  refine ⟨f?, hf, ?_⟩
  rw [Index.unlinked?, hfile, Option.map_map]
  congr 1
  funext f
  by_cases hnew : (index.file? path.key).isNone <;> simp [hnew]

/-- What applying an accepted update gives. -/
theorem applyUpdate_of_accepts (storage : Storage) (index : Index) (h : w.accepts path content = true) :
    w.applyUpdate storage path content index =
      (w.updated storage path content index,
        some (path.key,
          importsChanged (index.file? path.key) (.ofTable (Robot.parse content) path))) := by
  simp only [accepts, Bool.and_eq_true, Bool.not_eq_true', decide_eq_false_iff_not] at h
  obtain ⟨⟨hsize, hplace⟩, htable⟩ := h
  have hplace : (w.loader storage).isGenerated path = false := hplace
  have hself := file?_updated_self w storage path content index
  -- libraries are compared on the record in the index, which differs from the new one in its links
  have hchanged : ((w.updated storage path content index).file? path.key).any
      (importsChanged (index.file? path.key)) =
      importsChanged (index.file? path.key) (.ofTable (Robot.parse content) path) := by
    rw [hself, Option.any_some]
    unfold importsChanged
    rw [← SourceFile.unlinked_libraryNames, Index.unlinked_linked, SourceFile.unlinked_libraryNames]
  unfold applyUpdate
  simp only [hsize, hplace, htable, Index.fileByPath?, Path.key_normalize, SourceFile.key_ofTable]
  simp only [if_false, Bool.not_true, Bool.false_eq_true]
  rw [← hchanged]
  unfold updated
  split <;> rfl

/-! ## Events that take away -/

/-- A rejected update removes its file, or leaves the index as it is in the output directory of the
generator. -/
theorem applyUpdate_of_rejects (storage : Storage) (index : Index)
    (h : w.accepts path content = false) :
    (w.applyUpdate storage path content index).2 = none ∧
      ((w.applyUpdate storage path content index).1 = index.remove path.key ∨
        w.settings.generates path.key = true ∧
          (w.applyUpdate storage path content index).1 = index) := by
  unfold applyUpdate
  simp only [Path.key_normalize]
  split
  · exact ⟨rfl, Or.inl rfl⟩
  · next hsize =>
    split
    · next hplace => exact ⟨rfl, Or.inr ⟨hplace, rfl⟩⟩
    · next hplace =>
      split
      · exact ⟨rfl, Or.inl rfl⟩
      · next htable =>
        rw [Loader.isGenerated_eq] at hplace
        have haccepts : w.accepts path content = true := by
          simp_all [accepts, Workspace.loader]
        rw [haccepts] at h
        cases h

theorem file?_of_rejects (h : w.accepts path content = false) {key : Key} {f : SourceFile}
    (hfile : ((w.applyUpdate storage path content index).1).file? key = some f) :
    index.file? key = some f := by
  rcases (applyUpdate_of_rejects storage index h).2 with hindex | ⟨-, hindex⟩
  · rw [hindex] at hfile
    exact Index.file?_of_remove hfile
  · rwa [hindex] at hfile

end Workspace

end KeywordIndex
