import KeywordIndex.Proofs.Project.Rereading

namespace KeywordIndex

open Text

/-! # What an update leaves beside its file

An update of one file may load files that it or others import, link the imports of all files, and have all
libraries of the index replaced. Beside its own file it takes no table file away, changes at most their links,
and adds none but files that were not indexed before (`Beside`): the update of the index does so by itself
(`beside_updated`), and the libraries as long as none of them has the key of a table file (`Beside.install`).
A library that is loaded was asked for or reported (`comesUp_of_mem_loaded`), so for the update as a whole it is
enough that no such name is the key of a table file (`update_isolated`). The base library is asked for whether
it is imported or not, and so counts among them (`update_replaces_base_library`).
-/

namespace Workspace

variable {w : Workspace} {storage : Storage} {path : Path} {content : List Char} {index : Index}
  {run : GeneratorRequest → Except String GeneratorOutput}

/-- What a later index has beside the file at the path. -/
structure Beside (w : Workspace) (storage : Storage) (path : Path) (later : Index) : Prop where
  /-- Every table file stays as it is but for its links, and even these stay if the file was indexed before. -/
  kept : ∀ key f, key ≠ path.key → w.index.file? key = some f → f.isLibrary = false →
    ∃ g, later.file? key = some g ∧ g.unlinked = f.unlinked ∧ (w.index.contains path.key = true → g = f)
  /-- Any other table file was loaded from a file of the storage that was not indexed. -/
  added : ∀ key g, key ≠ path.key → later.file? key = some g → g.isLibrary = false →
    w.index.hasTable key = true ∨ w.index.contains key = false ∧
      ∃ file, storage.isFile file = true ∧ file.key = key ∧ (w.loader storage).Finds file g.unlinked

/-! ## The index -/

theorem beside_of_rejects (h : w.accepts path content = false) :
    w.Beside storage path (w.applyUpdate storage path content w.index).1 where
  kept key f hkey hfile _ := by
    refine ⟨f, ?_, rfl, fun _ => rfl⟩
    rcases (applyUpdate_of_rejects storage w.index h).2 with hindex | ⟨-, hindex⟩
    · rw [hindex, Index.file?_remove, if_neg hkey.symm, hfile]
    · rw [hindex, hfile]
  added key g _ hfile htable := Or.inl (Index.hasTable_iff.mpr ⟨g, file?_of_rejects h hfile, htable⟩)

theorem beside_updated (w : Workspace) (storage : Storage) (path : Path) (content : List Char) :
    w.Beside storage path (w.updated storage path content w.index) where
  kept key f hkey hfile _ := by
    obtain ⟨f?, hf, hlater⟩ := file?_updated_of_ne w storage content w.index hkey
    have hcontains : w.index.contains key = true := by rw [Index.contains, hfile]; rfl
    rw [hf.eq_of_contains hcontains, hfile, Option.map_some] at hlater
    refine ⟨_, hlater, ?_, fun hold => ?_⟩
    · split
      · exact Index.unlinked_linked _ _ _
      · rfl
    · -- the file was indexed before, and then its own imports are linked alone
      obtain ⟨own, hown⟩ := Option.isSome_iff_exists.mp hold
      rw [hown]
      rfl
  added key g hkey hfile htable := by
    obtain ⟨f?, hf, hlater⟩ := unlinked?_updated_of_ne w storage content w.index hkey
    rw [Index.unlinked?, hfile, Option.map_some, eq_comm, Option.map_eq_some_iff] at hlater
    obtain ⟨f, rfl, hsame⟩ := hlater
    rcases hf with hold | ⟨hno, file, found, hisFile, hfinds, hfileKey, hfound⟩
    · have hkind := (SourceFile.isLibrary_congr hsame).trans htable
      exact Or.inl (Index.hasTable_iff.mpr ⟨f, hold.symm, hkind⟩)
    · obtain rfl := Option.some.inj hfound
      refine Or.inr ⟨hno, file, hisFile, hfileKey, ?_⟩
      rwa [← hsame, hfinds.unlinked]

/-- Libraries that have no keys of table files leave these. -/
theorem Beside.install (h : w.Beside storage path index) (hindex : index.Consistent)
    {loaded : List LoadedLibrary}
    (hfree : ∀ library ∈ loaded, Key.ofText library.name ≠ path.key →
      w.index.hasTable (Key.ofText library.name) = false) :
    w.Beside storage path (index.install loaded) where
  kept key f hkey hfile htable := by
    obtain ⟨g, hg, hsame, hlinks⟩ := h.kept key f hkey hfile htable
    have hkind := (SourceFile.isLibrary_congr hsame).trans htable
    refine ⟨g, hindex.file?_install_of_table hg hkind fun library hlibrary hname => ?_, hsame, hlinks⟩
    have hno := hfree library hlibrary (hname ▸ hkey)
    rw [hname, Index.hasTable_iff.mpr ⟨f, hfile, htable⟩] at hno
    cases hno
  added key g hkey hfile htable := h.added key g hkey (Index.file?_of_install hfile htable) htable

/-! ## Libraries that come up -/

/-- The names of libraries that an indexed table file, a file that can be loaded or the new content imports, or
that the generator reports when it is run for the update. -/
inductive ComesUp (w : Workspace) (storage : Storage) (path : Path) (content : List Char)
    (run : GeneratorRequest → Except String GeneratorOutput) : String → Prop where
  | indexed {key : Key} {f : SourceFile} {name : String} (hfile : w.index.file? key = some f)
      (htable : f.isLibrary = false) (hname : name ∈ f.libraryNames) : ComesUp w storage path content run name
  | onDisk {file : Path} {f : SourceFile} {name : String} (hfinds : (w.loader storage).Finds file f)
      (hname : name ∈ f.libraryNames) : ComesUp w storage path content run name
  | new {name : String} (hname : name ∈ (SourceFile.ofTable (Robot.parse content) path).libraryNames) :
    ComesUp w storage path content run name
  | reported {task : Task} {e : LibraryEntry}
      (htask : (w.updateFile storage path content).task? = some task)
      (he : e ∈ ((w.request task).acquire run).libraries) : ComesUp w storage path content run e.name

/-- The updated index needs the base library, and otherwise what comes up. -/
theorem comesUp_of_mem_needed (hindex : w.index.Consistent) {name : String}
    (h : name ∈ w.needed (w.updated storage path content w.index)) :
    name = w.settings.baseLibrary ∨ w.ComesUp storage path content run name := by
  rcases List.mem_cons.mp (mem_distinct.mp h) with hbase | h
  · exact Or.inl hbase
  right
  obtain ⟨g, hg, hname⟩ := List.mem_flatMap.mp (mem_distinct.mp h)
  obtain ⟨hg, htable⟩ := List.mem_filter.mp hg
  rw [Bool.not_eq_true'] at htable
  have hfile := Index.file?_of_mem (consistent_updated hindex path content).keys_nodup hg
  rw [← SourceFile.unlinked_libraryNames] at hname
  by_cases hkey : g.key = path.key
  · -- it is the file itself
    rw [hkey, file?_updated_self, Option.some.injEq] at hfile
    rw [← hfile, Index.unlinked_linked, SourceFile.unlinked_ofTable] at hname
    exact .new hname
  · have hbeside := beside_updated w storage path content
    rcases hbeside.added g.key g hkey hfile htable with hold | ⟨-, file, -, -, hfinds⟩
    · obtain ⟨f, hf, hftable⟩ := Index.hasTable_iff.mp hold
      obtain ⟨g', hg', hsame, -⟩ := hbeside.kept g.key f hkey hf hftable
      obtain rfl := Option.some.inj (hfile.symm.trans hg')
      rw [hsame, SourceFile.unlinked_libraryNames] at hname
      exact .indexed hf hftable hname
    · exact .onDisk hfinds hname

/-- What a refresh loads was needed or reported. -/
theorem needed_of_mem_loaded {key : Key} {library : LoadedLibrary}
    (h : library ∈ (w.refresh storage (.endUpdate key)).loaded storage run) :
    ∃ task, (w.refresh storage (.endUpdate key)).task? = some task ∧
      (library.name ∈ w.needed w.index ∨
        ∃ e ∈ ((w.request task).acquire run).libraries, e.name = library.name) := by
  cases hrunning : w.refreshes.isRunning with
  | true =>
    rw [refresh_of_running hrunning] at h
    cases h
  | false =>
    rw [refresh_of_not_running hrunning] at h ⊢
    refine ⟨_, rfl, ?_⟩
    obtain ⟨e, he, hname, -⟩ := LibraryCache.exists_entry_of_mem_load h
    -- the cache that the round starts from has been cut down to the needed libraries
    rcases LibraryCache.mem_names_of_round (List.mem_map_of_mem he) with hcached | hasked | hreported
    · exact Or.inl (hname ▸ LibraryCache.mem_asked_of_prepared hcached)
    · exact Or.inl (hname ▸ hasked)
    · exact Or.inr (hname ▸ hreported)

/-- What an accepted update loads is the base library or has come up. -/
theorem comesUp_of_mem_loaded (hindex : w.index.Consistent) (haccepts : w.accepts path content = true)
    {library : LoadedLibrary} (h : library ∈ (w.updateFile storage path content).loaded storage run) :
    library.name = w.settings.baseLibrary ∨ w.ComesUp storage path content run library.name := by
  have hupdate := @updateFile_of_accepts w storage path content haccepts
  simp only at hupdate
  split at hupdate
  · rw [hupdate] at h
    obtain ⟨task, htask, hneeded | ⟨e, he, hname⟩⟩ := needed_of_mem_loaded h
    · exact comesUp_of_mem_needed hindex hneeded
    · exact Or.inr (hname ▸ .reported (hupdate ▸ htask) he)
  · rw [hupdate] at h
    cases h

/-! ## Updates -/

/-- Whatever happened before: when a file is updated, and the generator run once if it is asked, then that is
all, and beside the file the index is as `Beside` says, unless a library that is imported or reported, or the
base library, has the key of another table file. -/
theorem update_isolated {s : Session} (h : s.Reachable) (storage : Storage) (path : Path)
    (content : List Char) (run : GeneratorRequest → Except String GeneratorOutput)
    (hfree : ∀ name, name = s.workspace.settings.baseLibrary ∨ s.workspace.ComesUp storage path content run name →
      Key.ofText name ≠ path.key → s.workspace.index.hasTable (Key.ofText name) = false) :
    let w := s.workspace
    let later := (w.updateFile storage path content).answered storage run
    later.task? = none ∧ w.Beside storage path later.workspace.index := by
  intro w later
  have hindex : w.index.Consistent := h.consistent.index
  have hbeside : w.Beside storage path (w.applyUpdate storage path content w.index).1 := by
    cases haccepts : w.accepts path content with
    | false => exact beside_of_rejects haccepts
    | true =>
      rw [applyUpdate_of_accepts storage w.index haccepts]
      exact beside_updated w storage path content
  obtain ⟨hdone, hafter⟩ := index_answered_update w storage path content run
  refine ⟨hdone h.coalescers.2, ?_⟩
  rcases hafter with ⟨hafter, -⟩ | ⟨haccepts, hafter⟩
  · exact hafter ▸ hbeside
  · rw [hafter]
    refine hbeside.install (consistent_applyEvent hindex (.update path content)) fun library hlibrary => ?_
    exact hfree library.name (comesUp_of_mem_loaded hindex haccepts hlibrary)

/-! ## Runs in memory -/

/-- Whether all libraries that come up in an update are among the given ones. -/
def comesUpAmong (w : Workspace) (m : MemoryStorage) (path : Path) (content : List Char)
    (run : GeneratorRequest → Except String GeneratorOutput) (names : List String) : Bool :=
  w.index.files.all (fun f => f.libraryNames.all names.contains) &&
    m.files.all (fun file => (Robot.parse (decode file.content)).libraries.all (names.contains ·.name)) &&
    (Robot.parse content).libraries.all (names.contains ·.name) &&
    (w.updateFile m.toStorage path content).task?.all fun task =>
      ((w.request task).acquire run).libraries.all (names.contains ·.name)

theorem mem_of_comesUpAmong {m : MemoryStorage} {names : List String}
    (hnames : w.comesUpAmong m path content run names = true) {name : String}
    (h : w.ComesUp m.toStorage path content run name) : name ∈ names := by
  simp only [comesUpAmong, Bool.and_eq_true, List.all_eq_true, List.contains_iff_mem] at hnames
  obtain ⟨⟨⟨hindexed, hdisk⟩, hnew⟩, hreported⟩ := hnames
  cases h with
  | indexed hfile _ hname => exact hindexed _ (Index.mem_of_file? hfile).1 name hname
  | onDisk hfinds hname =>
    obtain ⟨file, hfile, -, -, rfl⟩ := hfinds.exists_memoryFile rfl
    obtain ⟨l, hl, rfl⟩ := List.mem_map.mp hname
    exact hdisk file hfile l hl
  | new hname =>
    obtain ⟨l, hl, rfl⟩ := List.mem_map.mp hname
    exact hnew l hl
  | reported htask he =>
    rw [htask, Option.all_some, List.all_eq_true] at hreported
    simpa using hreported _ he

/-- A file was edited in a workspace with the given settings. -/
def edited (settings : Settings) (path : Path) : Session :=
  Session.next { workspace := { settings := settings, patterns := [] } } (MemoryStorage.toStorage {})
    (.call (.update path "*** Keywords ***\nA\n".toList))

/-- A file that is not indexed. -/
def neighbour : MemoryStorage :=
  ({} : MemoryStorage).write ⟨"/q/m.robot"⟩ (encode "*** Keywords ***\nM\n".toList)

/-- Content that imports the file, and a library that nobody has. -/
def importing : List Char := "*** Settings ***\nLibrary    Extra\nResource    ../q/m.robot\n".toList

/-- Another file is edited for the first time. The file from before stays, and the imported one comes in. -/
theorem update_isolated_neighbour :
    let s := edited places ⟨"/p/a.robot"⟩
    let later := (s.workspace.updateFile neighbour.toStorage ⟨"/p/b.robot"⟩ importing).answered
      neighbour.toStorage noGenerator
    s.Reachable ∧
      (∀ name, name = s.workspace.settings.baseLibrary ∨
          s.workspace.ComesUp neighbour.toStorage ⟨"/p/b.robot"⟩ importing noGenerator name →
        Key.ofText name ≠ Path.key ⟨"/p/b.robot"⟩ → s.workspace.index.hasTable (Key.ofText name) = false) ∧
      (∃ f g, s.workspace.index.file? (Path.key ⟨"/p/a.robot"⟩) = some f ∧
        later.workspace.index.file? (Path.key ⟨"/p/a.robot"⟩) = some g ∧ g.unlinked = f.unlinked) ∧
      later.workspace.index.hasTable (Path.key ⟨"/q/m.robot"⟩) = true := by
  intro s later
  have hreachable : s.Reachable := .next (.start ofSettings_places) (Or.inl rfl)
  have hrun : s.workspace.comesUpAmong neighbour ⟨"/p/b.robot"⟩ importing noGenerator ["BuiltIn", "Extra"] =
        true ∧
      s.workspace.settings.baseLibrary = "BuiltIn" ∧
      (∀ name ∈ ["BuiltIn", "Extra"], s.workspace.index.hasTable (Key.ofText name) = false) ∧
      s.workspace.index.hasTable (Path.key ⟨"/p/a.robot"⟩) = true ∧
      later.workspace.index.hasTable (Path.key ⟨"/q/m.robot"⟩) = true := by
    decide +kernel
  obtain ⟨hnames, hbase, hno, hkept, hadded⟩ := hrun
  have hfree : ∀ name, name = s.workspace.settings.baseLibrary ∨
      s.workspace.ComesUp neighbour.toStorage ⟨"/p/b.robot"⟩ importing noGenerator name →
      Key.ofText name ≠ Path.key ⟨"/p/b.robot"⟩ → s.workspace.index.hasTable (Key.ofText name) = false := by
    rintro name (rfl | hname) -
    · exact hno _ (by simp [hbase])
    · exact hno name (mem_of_comesUpAmong hnames hname)
  obtain ⟨f, hf, htable⟩ := Index.hasTable_iff.mp hkept
  obtain ⟨-, hbeside⟩ :=
    update_isolated hreachable neighbour.toStorage ⟨"/p/b.robot"⟩ importing noGenerator hfree
  obtain ⟨g, hg, hsame, -⟩ := hbeside.kept _ f (by decide +kernel) hf htable
  exact ⟨hreachable, hfree, ⟨f, g, hf, hg, hsame⟩, hadded⟩

/-- Settings with a base library that has the name of a table file. -/
def shadowing : Settings := { places with baseLibrary := "common.robot" }

/-- A document of the base library that comes with the program. -/
def shadow : MemoryStorage := ({} : MemoryStorage).write ⟨"/bundled/common.robot.xml"⟩ document

/-- A generator that knows no library. -/
def silent : GeneratorRequest → Except String GeneratorOutput := fun _ => .ok ⟨true, "\x7b\x7d"⟩

/-- The base library is imported by nobody, and the generator reports nothing; no table file is on the disk, and
none in the index has the key of the library that comes up. And yet an update takes a table file away: what
stands in for the base library gets its key. -/
theorem update_replaces_base_library :
    let s := edited shadowing ⟨"common.robot"⟩
    let content := "*** Settings ***\nLibrary    X\n".toList
    let later := (s.workspace.updateFile shadow.toStorage ⟨"b.robot"⟩ content).answered shadow.toStorage silent
    s.Reachable ∧ s.waiting.isNone = true ∧ s.workspace.staged.isNone = true ∧
      (∀ name, s.workspace.ComesUp shadow.toStorage ⟨"b.robot"⟩ content silent name →
        Key.ofText name ≠ Path.key ⟨"b.robot"⟩ ∧ s.workspace.index.hasTable (Key.ofText name) = false) ∧
      (∀ file f, ¬ (s.workspace.loader shadow.toStorage).Finds file f) ∧
      later.task?.isNone = true ∧ s.workspace.index.hasTable (Path.key ⟨"common.robot"⟩) = true ∧
      later.workspace.index.hasTable (Path.key ⟨"common.robot"⟩) = false := by
  intro s content later
  have hstart : Workspace.ofSettings shadowing = .ok { settings := shadowing, patterns := [] } := rfl
  have hreachable : s.Reachable := .next (.start hstart) (Or.inl rfl)
  have hrun : s.waiting.isNone = true ∧ s.workspace.staged.isNone = true ∧
      s.workspace.comesUpAmong shadow ⟨"b.robot"⟩ content silent ["X"] = true ∧
      (∀ name ∈ ["X"], Key.ofText name ≠ Path.key ⟨"b.robot"⟩ ∧
        s.workspace.index.hasTable (Key.ofText name) = false) ∧
      later.task?.isNone = true ∧ s.workspace.index.hasTable (Path.key ⟨"common.robot"⟩) = true ∧
      later.workspace.index.hasTable (Path.key ⟨"common.robot"⟩) = false ∧
      (∀ file ∈ shadow.files, file.path = Path.components ⟨"/bundled/common.robot.xml"⟩ ∧
        isTableFile (decode file.content) ⟨"/bundled/common.robot.xml"⟩
          s.workspace.settings.tableExtensions = false) := by
    decide +kernel
  obtain ⟨hwaiting, hstaged, hnames, hno, hdone, hbefore, hafter, hdisk⟩ := hrun
  refine ⟨hreachable, hwaiting, hstaged, fun name h => hno name (mem_of_comesUpAmong hnames h), ?_, hdone,
    hbefore, hafter⟩
  -- the only file on the disk is the document
  intro path f hfinds
  obtain ⟨file, hfile, hpath, htable, -⟩ := hfinds.exists_memoryFile rfl
  obtain ⟨hdocument, hno⟩ := hdisk file hfile
  rw [isTableFile_congr (hpath.symm.trans hdocument), Workspace.loader, hno] at htable
  cases htable

end Workspace

end KeywordIndex
