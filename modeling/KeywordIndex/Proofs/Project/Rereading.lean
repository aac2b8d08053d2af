import KeywordIndex.Proofs.Project.Agreement
import KeywordIndex.Proofs.Project.Consistency

namespace KeywordIndex

open Text

/-! # Reading one file anew

A scan and a workspace that reads a file anew look at the same bytes and recognise the same files, but they
measure differently: the limit is compared with the number of bytes by the one, and also with the length of
the decoded text by the other, where a byte that is no UTF-8 counts three times. And of a file that has
become too large for both, the workspace keeps what it has. Elsewhere the two agree, as long as no library
comes in the place of the file (`Workspace.reread_agrees_iff`).
-/

namespace Loader

variable {l : Loader} {path : Path} {content : Bytes}

/-- The record that loading the file into an empty index gives. -/
def recordOf? (l : Loader) (path : Path) : Option SourceFile :=
  match l.loadFile path {} with
  | .ok (index, _) => index.file? path.key
  | .error _ => none

theorem recordOf?_eq_some {f : SourceFile} : l.recordOf? path = some f ↔ l.Finds path f := by
  constructor
  · intro h
    unfold recordOf? at h
    split at h
    · next later loaded hload =>
      rcases loadFile_eq_ok hload with ⟨g, hg, rfl, -⟩ | ⟨rfl, -⟩
      · rw [Index.file?_add, if_pos hg.key_eq] at h
        exact Option.some.inj h ▸ hg
      · cases h
    · cases h
  · intro h
    have hadded : (Index.add {} f).file? path.key = some f := by rw [Index.file?_add, if_pos h.key_eq]
    unfold recordOf?
    rw [loadFile_of_finds h]
    exact hadded

/-- Of a file in no output directory, the loader takes in what is below the limit and a table file. -/
theorem recordOf?_of_file (h : l.storage.HasFile path content)
    (hplace : l.settings.generates path.key = false) :
    l.recordOf? path =
      if content.length < l.settings.sizeLimit ∧
          isTableFile (decode content) path l.settings.tableExtensions = true then
        some (.ofTable (Robot.parse (decode content)) path)
      else none := by
  refine Option.ext fun f => ?_
  rw [recordOf?_eq_some, finds_iff h hplace]
  by_cases htaken : content.length < l.settings.sizeLimit ∧
      isTableFile (decode content) path l.settings.tableExtensions = true
  · rw [if_pos htaken, Option.some.injEq]
    exact ⟨fun h => h.2.symm, fun h => ⟨htaken, h.symm⟩⟩
  · rw [if_neg htaken]
    exact ⟨fun h => absurd h.1 htaken, fun h => nomatch h⟩

end Loader

/-! ## Libraries in the place of a table file -/

namespace Index

variable {index : Index} {key : Key} {f : SourceFile}

theorem Consistent.file?_removeLibraries (h : index.Consistent) (hfile : index.file? key = some f)
    (htable : f.isLibrary = false) : index.removeLibraries.file? key = some f := by
  rw [removeLibraries, file?_foldl_remove, if_neg, hfile]
  intro hmem
  obtain ⟨library, hlibrary, rfl⟩ := List.mem_map.mp hmem
  obtain ⟨hlibrary, hkind⟩ := List.mem_filter.mp hlibrary
  -- the library of that key is the table file
  rw [file?_of_mem h.keys_nodup hlibrary] at hfile
  rw [Option.some.inj hfile, htable] at hkind
  cases hkind

/-- A table file stays as it is when no library of its key is installed. -/
theorem Consistent.file?_install_of_table (h : index.Consistent) (hfile : index.file? key = some f)
    (htable : f.isLibrary = false) {loaded : List LoadedLibrary}
    (hnone : ∀ library ∈ loaded, Key.ofText library.name ≠ key) :
    (index.install loaded).file? key = some f := by
  have hfilter : (loaded.filter fun library => Key.ofText library.name = key) = [] :=
    List.filter_eq_nil_iff.mpr fun library hlibrary => by simpa using hnone library hlibrary
  simp only [Index.install, file?_foldl_addLoaded, hfilter, List.getLast?_nil,
    h.file?_removeLibraries hfile htable]

/-- Of a table file the record stays unless a library of its key is installed. -/
theorem Consistent.unlinked?_install_iff (h : index.Consistent) (hfile : index.file? key = some f)
    (htable : f.isLibrary = false) (loaded : List LoadedLibrary) :
    (index.install loaded).unlinked? key = some f.unlinked ↔
      ∀ library ∈ loaded, Key.ofText library.name ≠ key := by
  constructor
  · intro hkept library hlibrary hkey
    obtain ⟨g, hg, hkind⟩ : ∃ g, (index.install loaded).file? (Key.ofText library.name) = some g ∧
        g.isLibrary = true := exists_file?_install hlibrary
    rw [hkey] at hg
    rw [unlinked?, hg, Option.map_some, Option.some.injEq] at hkept
    have hsame := SourceFile.isLibrary_congr hkept
    rw [hkind, htable] at hsame
    cases hsame
  · intro hnone
    rw [unlinked?, h.file?_install_of_table hfile htable hnone, Option.map_some]

end Index

/-! ## Reading anew -/

/-- The libraries that are loaded when the generator was run once for an operation, if it waited. -/
def Progress.loaded (storage : Storage) (run : GeneratorRequest → Except String GeneratorOutput) :
    Progress → List LoadedLibrary
  | .done _ _ => []
  | .waiting w task => (w.takeIn storage task.names ((w.request task).acquire run)).2

namespace Workspace

variable {w : Workspace} {storage : Storage} {path : Path} {content : Bytes}
  {run : GeneratorRequest → Except String GeneratorOutput}

/-- A refresh for an update is over when it is answered once, unless another one is to follow that nobody has
begun, and installs what was loaded. -/
theorem answered_refresh_update (w : Workspace) (storage : Storage) (key : Key)
    (run : GeneratorRequest → Except String GeneratorOutput) :
    let p := w.refresh storage (.endUpdate key)
    ((w.refreshes.isPending = true → w.refreshes.isRunning = true) →
      (p.answered storage run).task? = none) ∧
      ((p.answered storage run).workspace.index = w.index ∧ p.loaded storage run = [] ∨
        (p.answered storage run).workspace.index = w.index.install (p.loaded storage run)) := by
  cases hrunning : w.refreshes.isRunning with
  | true =>
    rw [refresh_of_running hrunning]
    exact ⟨fun _ => rfl, Or.inl ⟨rfl, rfl⟩⟩
  | false =>
    rw [refresh_of_not_running hrunning]
    refine ⟨fun hpending => ?_, Or.inr ?_⟩
    · have hidle : w.refreshes = .idle :=
        Coalescer.eq_idle_iff.mpr ⟨hrunning, by simpa using hpending⟩
      rw [hidle]
      rfl
    · simp only [beginRefresh, ask, Progress.answered, Progress.loaded, index_resume_refresh]

/-- An update is over when it is answered once, and installs what was loaded, if anything was. -/
theorem index_answered_update (w : Workspace) (storage : Storage) (path : Path) (text : List Char)
    (run : GeneratorRequest → Except String GeneratorOutput) :
    let p := w.updateFile storage path text
    let index := (w.applyUpdate storage path text w.index).1
    ((w.refreshes.isPending = true → w.refreshes.isRunning = true) →
      (p.answered storage run).task? = none) ∧
      ((p.answered storage run).workspace.index = index ∧ p.loaded storage run = [] ∨
        w.accepts path text = true ∧
          (p.answered storage run).workspace.index = index.install (p.loaded storage run)) := by
  cases haccepts : w.accepts path text with
  | false =>
    rw [updateFile_of_rejects haccepts]
    exact ⟨fun _ => rfl, Or.inl ⟨rfl, rfl⟩⟩
  | true =>
    rw [updateFile_of_accepts haccepts, applyUpdate_of_accepts storage w.index haccepts]
    simp only
    split
    · obtain ⟨hdone, hafter⟩ := answered_refresh_update
        { w with
          index := w.updated storage path text w.index
          staged := w.staged.map (· ++ [.update path text]) } storage path.key run
      exact ⟨hdone, hafter.imp_right fun hafter => ⟨trivial, hafter⟩⟩
    · exact ⟨fun _ => rfl, Or.inl ⟨rfl, rfl⟩⟩

/-- Accepted content of a file is in the index in the end, unless a library of its key was loaded. -/
theorem answered_update (hindex : w.index.Consistent) {text : List Char}
    (haccepts : w.accepts path text = true) :
    let p := w.updateFile storage path text
    ((w.refreshes.isPending = true → w.refreshes.isRunning = true) →
      (p.answered storage run).task? = none) ∧
      ((p.answered storage run).workspace.index.unlinked? path.key =
          some (.ofTable (Robot.parse text) path) ↔
        ∀ library ∈ p.loaded storage run, Key.ofText library.name ≠ path.key) := by
  obtain ⟨hdone, hafter⟩ := index_answered_update w storage path text run
  simp only [applyUpdate_of_accepts storage w.index haccepts] at hafter
  refine ⟨hdone, ?_⟩
  rcases hafter with ⟨hafter, hnone⟩ | ⟨-, hafter⟩
  · rw [hafter, hnone]
    simp [unlinked?_updated_self]
  · have hfile := file?_updated_self w storage path text w.index
    have hupdated : (w.updated storage path text w.index).Consistent := consistent_updated hindex path text
    have hkept := hupdated.unlinked?_install_iff hfile
      (by rw [← SourceFile.unlinked_isLibrary, Index.unlinked_linked]; rfl)
    rw [Index.unlinked_linked, SourceFile.unlinked_ofTable] at hkept
    rw [hafter]
    exact hkept _

/-- Whatever a consistent index holds, as those of all sessions are: when a file outside of the output
directory of the generator was read anew, and the generator run where its imports of libraries changed, then
that is all (where no refresh follows without one in progress, as in all sessions), and the index has the record that a scan would give, links aside, or none if a scan would give
none, exactly unless the file is too large now and a record of it is there, or its bytes are below the limit
while its text is not and a table file, or a library that was loaded takes its key. -/
theorem reread_agrees_iff (hindex : w.index.Consistent) (hfile : storage.HasFile path content)
    (hplace : w.settings.generates path.key = false)
    (run : GeneratorRequest → Except String GeneratorOutput) :
    let reread := w.enact storage (.reloadFile path)
    let later := reread.answered storage run
    ((w.refreshes.isPending = true → w.refreshes.isRunning = true) → later.task? = none) ∧
      (later.workspace.index.unlinked? path.key =
          ((w.loader storage).recordOf? path).map SourceFile.unlinked ↔
        ¬ (w.settings.sizeLimit ≤ content.length ∧ w.index.contains path.key = true) ∧
        ¬ (content.length < w.settings.sizeLimit ∧
          w.settings.sizeLimit ≤ byteLength (decode content) ∧
          isTableFile (decode content) path w.settings.tableExtensions = true) ∧
        ∀ library ∈ reread.loaded storage run, Key.ofText library.name ≠ path.key) := by
  have hrecord := Loader.recordOf?_of_file (l := w.loader storage) hfile hplace
  simp only [loader] at hrecord
  simp only [hrecord, loader]
  by_cases hsize : content.length < w.settings.sizeLimit
  · have hread := Loader.readLimited_of_small (l := w.loader storage) hfile hsize
    have henact : w.enact storage (.reloadFile path) = w.updateFile storage path (decode content) := by
      simp only [enact, reloadFile_of_read hread]
    simp only [henact, hsize, true_and, Nat.not_le.mpr hsize, false_and, not_false_eq_true]
    by_cases haccepts : w.accepts path (decode content) = true
    · have htext := haccepts
      simp only [accepts, Bool.and_eq_true, Bool.not_eq_true', decide_eq_false_iff_not] at htext
      obtain ⟨⟨htext, -⟩, htable⟩ := htext
      simpa [htext, htable] using answered_update hindex haccepts
    · -- what is not accepted is removed, and a scan accepts it only if its text is too large
      rw [Bool.not_eq_true] at haccepts
      have hremoved : (w.applyUpdate storage path (decode content) w.index).1 =
          w.index.remove path.key :=
        (applyUpdate_of_rejects storage w.index haccepts).2.resolve_right (by simp [hplace])
      have hgone : (w.index.remove path.key).file? path.key = none := by
        rw [Index.file?_remove, if_pos rfl]
      rw [updateFile_of_rejects haccepts]
      refine ⟨fun _ => rfl, ?_⟩
      simp only [Progress.answered, Progress.workspace, Progress.loaded, hremoved, Index.unlinked?,
        hgone]
      simp only [accepts, hplace, Bool.not_false, Bool.and_true, Bool.and_eq_false_iff,
        Bool.not_eq_false', decide_eq_true_eq] at haccepts
      by_cases htable : isTableFile (decode content) path w.settings.tableExtensions = true
      · simp [htable, haccepts.resolve_right (by simp [htable])]
      · simp [htable]
  · have hlarge := Nat.not_lt.mp hsize
    have hread := Loader.readLimited_of_large (l := w.loader storage) hfile hlarge
    have henact : w.enact storage (.reloadFile path) = .done w (.indexed none) := by
      simp only [enact, reloadFile_of_unread hread]
    rw [henact]
    refine ⟨fun _ => rfl, ?_⟩
    simp [Progress.answered, Progress.workspace, Progress.loaded, hsize, hlarge, Index.unlinked?,
      Index.contains]

/-! ## A file that grows -/

/-- A file with one keyword. -/
def terse : MemoryStorage :=
  ({} : MemoryStorage).write ⟨"/p/a.robot"⟩ (encode "*** Keywords ***\nA\n".toList)

/-- The content of the file when the keyword has a longer name. -/
def wordy : Bytes := encode "*** Keywords ***\nA Longer Name\n".toList

/-- The file has its new content. -/
def grown : MemoryStorage := terse.write ⟨"/p/a.robot"⟩ wordy

theorem hasFile_grown : grown.toStorage.HasFile ⟨"/p/a.robot"⟩ wordy :=
  MemoryStorage.hasFile (f := ⟨Path.components ⟨"/p/a.robot"⟩, wordy⟩) <|
    (MemoryStorage.file?_write terse ⟨"/p/a.robot"⟩ wordy _).trans (if_pos rfl)

/-- The file was read before it grew, by a workspace with the given size limit. -/
def limitedTo (limit : Nat) : Session :=
  Session.next { workspace := { settings := { places with sizeLimit := limit }, patterns := [] } }
    terse.toStorage (.call (.reloadFile ⟨"/p/a.robot"⟩))

theorem reachable_limitedTo (limit : Nat) : (limitedTo limit).Reachable := by
  have hstart : Workspace.ofSettings { places with sizeLimit := limit } =
      .ok { settings := { places with sizeLimit := limit }, patterns := [] } := rfl
  exact .next (.start hstart) (Or.inl rfl)

/-- Below the limit the file is read anew as a scan would read it. -/
theorem reread_agrees_grown :
    let w := (limitedTo 100).workspace
    let reread := w.enact grown.toStorage (.reloadFile ⟨"/p/a.robot"⟩)
    w.index.Consistent ∧ w.settings.generates (Path.key ⟨"/p/a.robot"⟩) = false ∧
      (reread.answered grown.toStorage noGenerator).task? = none ∧
      (reread.answered grown.toStorage noGenerator).workspace.index.unlinked? (Path.key ⟨"/p/a.robot"⟩) =
        ((w.loader grown.toStorage).recordOf? ⟨"/p/a.robot"⟩).map SourceFile.unlinked := by
  intro w reread
  have hconsistent := (reachable_limitedTo 100).consistent.index
  have hrun : w.settings.generates (Path.key ⟨"/p/a.robot"⟩) = false ∧ wordy.length < 100 ∧
      byteLength (decode wordy) < 100 ∧ w.settings.sizeLimit = 100 ∧
      (reread.loaded grown.toStorage noGenerator).isEmpty = true := by
    decide +kernel
  obtain ⟨hplace, hsize, htext, hlimit, hloaded⟩ := hrun
  obtain ⟨hdone, hagree⟩ := reread_agrees_iff hconsistent hasFile_grown hplace noGenerator
  refine ⟨hconsistent, hplace, hdone (reachable_limitedTo 100).coalescers.2, ?_⟩
  refine hagree.mpr ⟨fun h => ?_, fun h => ?_, fun library hlibrary => ?_⟩
  · exact absurd (hlimit ▸ h.1) (Nat.not_le.mpr hsize)
  · exact absurd (hlimit ▸ h.2.1) (Nat.not_le.mpr htext)
  · rw [List.isEmpty_iff.mp hloaded] at hlibrary
    cases hlibrary

/-- Above the limit the record from before stays, while a scan would give none. -/
theorem reread_disagrees_grown :
    let w := (limitedTo 30).workspace
    let later := (w.enact grown.toStorage (.reloadFile ⟨"/p/a.robot"⟩)).answered grown.toStorage noGenerator
    (limitedTo 30).Reachable ∧ grown.toStorage.HasFile ⟨"/p/a.robot"⟩ wordy ∧
      w.settings.generates (Path.key ⟨"/p/a.robot"⟩) = false ∧ later.task? = none ∧
      later.workspace.index.contains (Path.key ⟨"/p/a.robot"⟩) = true ∧
      (w.loader grown.toStorage).recordOf? ⟨"/p/a.robot"⟩ = none := by
  intro w later
  have hrun : w.settings.generates (Path.key ⟨"/p/a.robot"⟩) = false ∧ later.task?.isNone = true ∧
      later.workspace.index.contains (Path.key ⟨"/p/a.robot"⟩) = true ∧
      ((w.loader grown.toStorage).recordOf? ⟨"/p/a.robot"⟩).isNone = true := by
    decide +kernel
  obtain ⟨hplace, hdone, hkept, hrecord⟩ := hrun
  exact ⟨reachable_limitedTo 30, hasFile_grown, hplace, Option.isNone_iff_eq_none.mp hdone, hkept,
    Option.isNone_iff_eq_none.mp hrecord⟩

end Workspace

end KeywordIndex
