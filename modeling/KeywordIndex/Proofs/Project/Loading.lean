import KeywordIndex.Project.Loader
import KeywordIndex.Proofs.Index.Links
import KeywordIndex.Proofs.Storage.Reading

namespace KeywordIndex

open Text

/-! # What loading puts into an index

A loader indexes nothing but table files that it reads outside of the output directory of the generator
(`Finds`). Loading missing files leaves every key alone that was in the index and may fill others
(`Fills`). Both kinds of import resolution come down to that and to linking records against the index
that comes out (`file?_resolveImports`, `file?_resolveFileImports`).
-/

/-- Whether the key lies in the output directory of the generator. -/
def Settings.generates (s : Settings) (key : Key) : Bool :=
  !s.documentDirectory.text.isEmpty && key.isWithin s.documentDirectory.key

/-- The extension of a path does not depend on its spelling. -/
theorem Path.lowerExtension?_congr {p q : Path} (h : p.components = q.components) :
    p.lowerExtension? = q.lowerExtension? := by
  unfold lowerExtension? extension? fileName?
  rw [h]

theorem isTableFile_congr {content : List Char} {p q : Path} (h : p.components = q.components)
    (listed : List String) : isTableFile content p listed = isTableFile content q listed := by
  rw [isTableFile, isTableFile, Path.lowerExtension?_congr h]

namespace Loader

variable {l : Loader} {index : Index}

theorem isGenerated_eq (l : Loader) (path : Path) : l.isGenerated path = l.settings.generates path.key := rfl

/-- The loader reads a table file at the path, and this is its record. -/
structure Finds (l : Loader) (path : Path) (f : SourceFile) : Prop where
  isCandidate : l.isCandidate path = true
  not_generated : l.settings.generates path.key = false
  read : ∃ content, l.readLimited path = .ok content ∧
    isTableFile content path l.settings.tableExtensions = true ∧
    f = .ofTable (Robot.parse content) path

theorem Finds.key_eq {path : Path} {f : SourceFile} (h : l.Finds path f) : f.key = path.key := by
  obtain ⟨content, -, -, rfl⟩ := h.read
  exact SourceFile.key_ofTable _ _

theorem Finds.unlinked {path : Path} {f : SourceFile} (h : l.Finds path f) : f.unlinked = f := by
  obtain ⟨content, -, -, rfl⟩ := h.read
  exact SourceFile.unlinked_ofTable _ _

theorem Finds.isLibrary_eq {path : Path} {f : SourceFile} (h : l.Finds path f) : f.isLibrary = false := by
  obtain ⟨content, -, -, rfl⟩ := h.read
  exact SourceFile.isLibrary_ofTable _ _

/-- Loading a file adds the record that is found for it, or does nothing. -/
theorem loadFile_eq_ok {path : Path} {later : Index} {loaded : Loaded}
    (h : l.loadFile path index = .ok (later, loaded)) :
    (∃ f, l.Finds path f ∧ later = index.add f ∧ loaded = .table f.key) ∨
      later = index ∧ ∀ key, loaded ≠ .table key := by
  unfold loadFile at h
  split at h
  · obtain ⟨rfl, rfl⟩ := Prod.mk.inj (Except.ok.inj h)
    exact Or.inr ⟨rfl, by simp⟩
  · next happlies =>
    rw [Bool.not_eq_true, Bool.or_eq_false_iff, Bool.not_eq_false'] at happlies
    split at h
    · cases h
    · next content hcontent =>
      simp only at h
      split at h
      · next htable =>
        obtain ⟨rfl, rfl⟩ := Prod.mk.inj (Except.ok.inj h)
        exact Or.inl ⟨_, ⟨happlies.1, happlies.2, content, hcontent, htable, rfl⟩, rfl, rfl⟩
      · split at h
        · obtain ⟨rfl, rfl⟩ := Prod.mk.inj (Except.ok.inj h)
          exact Or.inr ⟨rfl, by simp⟩
        · obtain ⟨rfl, rfl⟩ := Prod.mk.inj (Except.ok.inj h)
          exact Or.inr ⟨rfl, by simp⟩

/-! ## Files -/

section Files

variable {path : Path} {content : Bytes}

/-- What is recognised as a table file has the extension of one. -/
theorem isCandidate_of_isTableFile {content : List Char}
    (h : isTableFile content path l.settings.tableExtensions = true) : l.isCandidate path = true := by
  unfold isTableFile at h
  unfold isCandidate
  cases hextension : path.lowerExtension? with
  | none => simp [hextension] at h
  | some extension =>
    simp only [hextension, Bool.or_eq_true, Bool.and_eq_true] at h ⊢
    rcases h with h | ⟨h, -⟩
    · exact Or.inl (Or.inl h)
    · exact Or.inr h

theorem readLimited_of_large (h : l.storage.HasFile path content)
    (hsize : l.settings.sizeLimit ≤ content.length) :
    l.readLimited path = .error (.tooLarge path content.length l.settings.sizeLimit) := by
  simp only [readLimited, h.stat, if_pos hsize]

theorem readLimited_of_small (h : l.storage.HasFile path content)
    (hsize : content.length < l.settings.sizeLimit) : l.readLimited path = .ok (decode content) := by
  simp only [readLimited, h.stat, if_neg (Nat.not_le.mpr hsize), h.readText]
  rfl

/-- Of a file in no output directory, a record is found if its bytes are below the limit and it is a table
file. -/
theorem finds_iff (h : l.storage.HasFile path content)
    (hplace : l.settings.generates path.key = false) {f : SourceFile} :
    l.Finds path f ↔
      (content.length < l.settings.sizeLimit ∧
        isTableFile (decode content) path l.settings.tableExtensions = true) ∧
      f = .ofTable (Robot.parse (decode content)) path := by
  constructor
  · rintro ⟨-, -, text, hread, htable, rfl⟩
    by_cases hsize : content.length < l.settings.sizeLimit
    · rw [readLimited_of_small h hsize] at hread
      obtain rfl := Except.ok.inj hread
      exact ⟨⟨hsize, htable⟩, rfl⟩
    · rw [readLimited_of_large h (Nat.not_lt.mp hsize)] at hread
      cases hread
  · rintro ⟨⟨hsize, htable⟩, rfl⟩
    exact ⟨isCandidate_of_isTableFile htable, hplace, _, readLimited_of_small h hsize, htable, rfl⟩

/-- A record that is found is added. -/
theorem loadFile_of_finds {f : SourceFile} (h : l.Finds path f) (index : Index) :
    l.loadFile path index = .ok (index.add f, .table f.key) := by
  obtain ⟨hcandidate, hplace, content, hread, htable, rfl⟩ := h
  have hgenerated : l.isGenerated path = false := hplace
  simp [loadFile, hcandidate, hgenerated, hread, classify, htable]

/-- In memory, a record that is found is that of one of the files. -/
theorem Finds.exists_memoryFile {m : MemoryStorage} {f : SourceFile} (h : l.Finds path f)
    (hstorage : l.storage = m.toStorage) :
    ∃ file ∈ m.files, file.path = path.components ∧
      isTableFile (decode file.content) path l.settings.tableExtensions = true ∧
      f = .ofTable (Robot.parse (decode file.content)) path := by
  cases hfound : m.file? path.components with
  | none =>
    -- nothing can be read where no file is
    obtain ⟨text, hread, -⟩ := h.read
    have hnothing : l.storage.readText path = .error .absent := by
      rw [hstorage, Storage.readText]
      simp only [MemoryStorage.toStorage, MemoryStorage.read, hfound]
      rfl
    simp only [readLimited, hnothing] at hread
    split at hread
    · cases hread
    · split at hread
      · cases hread
      · cases hread
  | some file =>
    have hfile := MemoryStorage.hasFile hfound
    rw [← hstorage] at hfile
    obtain ⟨⟨-, htable⟩, hrecord⟩ := (finds_iff hfile h.not_generated).mp h
    exact ⟨file, List.mem_of_find?_eq_some hfound, by simpa using List.find?_some hfound, htable, hrecord⟩

end Files

/-! ## Scans -/

section Scans

variable {motive : Index → Prop}

theorem visitFile_induction
    (hadd : ∀ index path f, l.Finds path f → motive index → motive (index.add f))
    (path : Path) {s : Scan} (h : motive s.index) : motive (l.visitFile path s).index := by
  unfold visitFile
  split
  · exact h
  · next index key hload =>
    rcases loadFile_eq_ok hload with ⟨f, hf, rfl, -⟩ | ⟨-, hno⟩
    · exact hadd _ _ _ hf h
    · exact absurd rfl (hno key)
  · exact h
  · exact h

theorem visitEntry_induction
    (hadd : ∀ index path f, l.Finds path f → motive index → motive (index.add f))
    {visitBelow : Path → Scan → Scan}
    (hbelow : ∀ path s, motive s.index → motive (visitBelow path s).index)
    (directory : Path) {s : Scan} (name : String) (h : motive s.index) :
    motive (l.visitEntry visitBelow directory s name).index := by
  unfold visitEntry
  simp only
  split
  · exact h
  · split
    · exact h
    · split
      · exact hbelow _ _ h
      · split
        · exact visitFile_induction hadd _ h
        · exact h

/-- What holds of the index before a scan and is kept by every found record holds afterwards. -/
theorem visitDirectory_induction
    (hadd : ∀ index path f, l.Finds path f → motive index → motive (index.add f))
    (depth : Nat) (directory : Path) {s : Scan} (h : motive s.index) :
    motive (l.visitDirectory depth directory s).index := by
  -- the entries of one directory, once what lies below them is known to keep it
  have entries {visitBelow : Path → Scan → Scan}
      (hbelow : ∀ path s, motive s.index → motive (visitBelow path s).index) (directory : Path)
      (names : List String) {s : Scan} (h : motive s.index) :
      motive (names.foldl (l.visitEntry visitBelow directory) s).index :=
    List.foldlRecOn (motive := fun s : Scan => motive s.index) names _ h
      fun _ h name _ => visitEntry_induction hadd hbelow directory name h
  induction depth generalizing directory s with
  | zero =>
    unfold visitDirectory
    split
    · exact h
    · exact entries (fun _ _ h => h) _ _ h
  | succ depth ih =>
    unfold visitDirectory
    split
    · exact h
    · exact entries (fun path s h => ih path h) _ _ h

theorem scan_induction
    (hadd : ∀ index path f, l.Finds path f → motive index → motive (index.add f))
    {root : Path} {s : Scan} (hscan : l.scan root index = .ok s) (h : motive index) :
    motive s.index := by
  unfold scan at hscan
  split at hscan
  · cases hscan
  · split at hscan
    · obtain rfl := Except.ok.inj hscan
      exact visitDirectory_induction hadd _ _ h
    · cases hscan

end Scans

/-! ## Missing files -/

/-- What is under a key after missing files were loaded: what was there before, or, if that was nothing,
the record of an existing file. -/
def Fills (l : Loader) (index : Index) (key : Key) (f? : Option SourceFile) : Prop :=
  f? = index.file? key ∨
    index.contains key = false ∧
      ∃ path f, l.storage.isFile path = true ∧ l.Finds path f ∧ path.key = key ∧ f? = some f

theorem Fills.eq_of_contains {key : Key} {f? : Option SourceFile} (h : l.Fills index key f?)
    (hkey : index.contains key = true) : f? = index.file? key := by
  rcases h with h | ⟨hno, -⟩
  · exact h
  · rw [hno] at hkey
    cases hkey

/-- A record that is there after missing files were filled in and linked was there before, links aside, or
is a table file that was missing. -/
theorem Fills.of_file? {later : Index} {key : Key} {f? : Option SourceFile} (h : l.Fills index key f?)
    (hlater : later.unlinked? key = f?.map SourceFile.unlinked) {f : SourceFile}
    (hfile : later.file? key = some f) :
    (∃ g, index.file? key = some g ∧ g.isLibrary = f.isLibrary ∧ g.libraryNames = f.libraryNames) ∨
      index.contains key = false ∧ f.isLibrary = false := by
  rw [Index.unlinked?, hfile, Option.map_some, eq_comm, Option.map_eq_some_iff] at hlater
  obtain ⟨g, rfl, hg⟩ := hlater
  have hlibrary := SourceFile.isLibrary_congr hg
  have hnames : g.libraryNames = f.libraryNames := by simpa using congrArg SourceFile.libraryNames hg
  rcases h with hold | ⟨hno, path, found, -, hfinds, -, hfound⟩
  · exact Or.inl ⟨g, hold.symm, hlibrary, hnames⟩
  · obtain rfl := Option.some.inj hfound
    exact Or.inr ⟨hno, hlibrary.symm.trans hfinds.isLibrary_eq⟩

/-- Loads the next missing file, and counts it if it is a table file. -/
def loadNext (l : Loader) (current : Index × Nat) (path : Path) : Index × Nat :=
  match l.loadFile path current.1 with
  | .ok (index, .table _) => (index, current.2 + 1)
  | _ => current

theorem loadMissing_eq (l : Loader) (missing : List Path) (index : Index) :
    l.loadMissing missing index = missing.foldl l.loadNext (index, 0) := by
  unfold loadMissing
  congr 1

theorem loadNext_cases (l : Loader) (current : Index × Nat) (path : Path) :
    (∃ f, l.Finds path f ∧ l.loadNext current path = (current.1.add f, current.2 + 1)) ∨
      l.loadNext current path = current := by
  unfold loadNext
  split
  · next later loaded hload =>
    rcases loadFile_eq_ok hload with ⟨f, hf, rfl, -⟩ | ⟨-, hno⟩
    · exact Or.inl ⟨f, hf, rfl⟩
    · exact absurd rfl (hno loaded)
  · exact Or.inr rfl

theorem file?_loadMissing (l : Loader) (index : Index) (missing : List Path)
    (hmissing : ∀ path ∈ missing, l.storage.isFile path = true ∧ index.contains path.key = false)
    (key : Key) : l.Fills index key ((l.loadMissing missing index).1.file? key) := by
  rw [loadMissing_eq]
  refine List.foldlRecOn
    (motive := fun current : Index × Nat => l.Fills index key (current.1.file? key)) missing _
    (Or.inl rfl) fun current h path hpath => ?_
  rcases l.loadNext_cases current path with ⟨f, hf, hnext⟩ | hnext
  · rw [hnext, Index.file?_add, hf.key_eq]
    split
    · next hkey =>
      -- two missing paths may have one key: then the later record stands, and is as good
      obtain ⟨hfile, hcontains⟩ := hmissing path hpath
      exact Or.inr ⟨hkey ▸ hcontains, path, f, hfile, hf, hkey, rfl⟩
    · exact h
  · rw [hnext]
    exact h

/-- If no file was counted, the index is as it was. -/
theorem loadMissing_of_count {missing : List Path} (h : (l.loadMissing missing index).2 = 0) :
    (l.loadMissing missing index).1 = index := by
  have general : ∀ (paths : List Path) (current : Index × Nat),
      current.2 ≤ (paths.foldl l.loadNext current).2 ∧
        ((paths.foldl l.loadNext current).2 = current.2 →
          (paths.foldl l.loadNext current).1 = current.1) := by
    intro paths
    induction paths with
    | nil => exact fun _ => ⟨Nat.le_refl _, fun _ => rfl⟩
    | cons path rest ih =>
      intro current
      rw [List.foldl_cons]
      rcases l.loadNext_cases current path with ⟨f, -, hnext⟩ | hnext
      · -- a loaded file is counted, and the count never sinks again
        have hle := (ih (current.1.add f, current.2 + 1)).1
        rw [hnext]
        exact ⟨by omega, fun e => by omega⟩
      · rw [hnext]
        exact ih current
  rw [loadMissing_eq] at h ⊢
  exact (general missing (index, 0)).2 h

/-! ## Two passes -/

/-- A pass links the records in its scope against the index, and finds existing files missing. -/
structure Links (pass : Index → Resolution) (isFile : Path → Bool) (scope : Key → Bool) : Prop where
  file?_pass : ∀ (index : Index) (key : Key), (pass index).index.file? key =
    (index.file? key).map fun f => if scope key then index.linked isFile f else f
  of_mem_missing : ∀ (index : Index), ∀ path ∈ (pass index).missing,
    isFile path = true ∧ index.contains path.key = false

theorem Links.contains_pass {pass : Index → Resolution} {isFile : Path → Bool} {scope : Key → Bool}
    (h : Links pass isFile scope) (index : Index) (key : Key) :
    (pass index).index.contains key = index.contains key := by
  simp [Index.contains, h.file?_pass]

theorem links_resolveAll (isFile : Path → Bool) : Links (·.resolveAll isFile) isFile fun _ => true where
  file?_pass := fun index key => by simp [Index.file?_resolveAll]
  of_mem_missing := fun _ _ h => Index.of_mem_missing_resolveAll h

theorem links_resolve (isFile : Path → Bool) (key : Key) :
    Links (·.resolve isFile key) isFile fun k => k = key where
  file?_pass := fun index k => by simp [Index.file?_resolve]
  of_mem_missing := fun _ _ h => Index.of_mem_missing h

/-- What is under a key after missing files were loaded on top of a first pass. -/
theorem Links.fills {pass : Index → Resolution} {scope : Key → Bool}
    (h : Links pass l.storage.isFile scope) {key : Key} {f? : Option SourceFile}
    (hf : l.Fills (pass index).index key f?) :
    ∃ g?, l.Fills index key g? ∧ ∀ other : Index,
      (f?.map fun f => if scope key then other.linked l.storage.isFile f else f) =
        g?.map fun f => if scope key then other.linked l.storage.isFile f else f := by
  rcases hf with rfl | ⟨hno, path, f, hfile, hfinds, hkey, rfl⟩
  · -- the second pass overwrites the links of the first
    refine ⟨index.file? key, Or.inl rfl, fun other => ?_⟩
    rw [h.file?_pass, Option.map_map]
    congr 1
    funext f
    by_cases hscope : scope key <;> simp [hscope]
  · rw [h.contains_pass] at hno
    exact ⟨some f, Or.inr ⟨hno, path, f, hfile, hfinds, hkey, rfl⟩, fun _ => rfl⟩

/-- Two passes fill missing files in, and link the records in their scope against the index that comes
out. -/
theorem file?_resolveTwice {pass : Index → Resolution} {scope : Key → Bool}
    (h : Links pass l.storage.isFile scope) (index : Index) (key : Key) :
    ∃ f?, l.Fills index key f? ∧ (l.resolveTwice pass index).1.file? key =
      f?.map fun f =>
        if scope key then (l.resolveTwice pass index).1.linked l.storage.isFile f else f := by
  unfold resolveTwice
  simp only
  split
  · next hcount =>
    -- nothing was loaded, and the keys are those of the index before
    refine ⟨index.file? key, Or.inl rfl, ?_⟩
    rw [loadMissing_of_count hcount, h.file?_pass, Index.linked_congr (h.contains_pass index)]
  · -- the second pass adds no keys, so it links against the index that comes out
    have hfills := l.file?_loadMissing (pass index).index (pass index).missing
      (fun path hpath => h.contains_pass index path.key ▸ h.of_mem_missing index path hpath) key
    obtain ⟨f?, hf, hlinked⟩ := h.fills hfills
    refine ⟨f?, hf, ?_⟩
    rw [h.file?_pass, Index.linked_congr (h.contains_pass _), hlinked]

/-- Resolving the imports of every record links all of them against the index that comes out. -/
theorem file?_resolveImports (l : Loader) (index : Index) (key : Key) :
    ∃ f?, l.Fills index key f? ∧ (l.resolveImports index).1.file? key =
      f?.map ((l.resolveImports index).1.linked l.storage.isFile) := by
  obtain ⟨f?, hf, hfile⟩ := file?_resolveTwice (links_resolveAll l.storage.isFile) index key
  refine ⟨f?, hf, ?_⟩
  unfold resolveImports
  simpa using hfile

/-- Links aside, it fills missing files in and changes nothing else. -/
theorem unlinked?_resolveImports (l : Loader) (index : Index) (key : Key) :
    ∃ f?, l.Fills index key f? ∧
      (l.resolveImports index).1.unlinked? key = f?.map SourceFile.unlinked := by
  obtain ⟨f?, hf, hfile⟩ := l.file?_resolveImports index key
  refine ⟨f?, hf, ?_⟩
  rw [Index.unlinked?, hfile, Option.map_map]
  congr 1
  funext f
  exact Index.unlinked_linked _ _ _

/-- Resolving the imports of one record links that record alone. -/
theorem file?_resolveFileImports (l : Loader) (updated : Key) (index : Index) (key : Key) :
    ∃ f?, l.Fills index key f? ∧ (l.resolveFileImports updated index).1.file? key =
      f?.map fun f =>
        if key = updated then (l.resolveFileImports updated index).1.linked l.storage.isFile f
        else f := by
  obtain ⟨f?, hf, hfile⟩ := file?_resolveTwice (links_resolve l.storage.isFile updated) index key
  refine ⟨f?, hf, ?_⟩
  unfold resolveFileImports
  simpa using hfile

end Loader

end KeywordIndex
