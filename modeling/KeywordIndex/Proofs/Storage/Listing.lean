import KeywordIndex.Proofs.Storage.Memory

namespace KeywordIndex

open Text

/-! # Listing directories in memory

What writing and deleting leave is in order (`kept_after`). As long as no file is a directory of another, what
is listed is a directory, and where the names below it are texts these are the names of its entries, each of
which is there, and a walk that lists one directory after another comes to every file once (`walks`).
-/

namespace MemoryStorage

/-! ## Walking -/

/-- The files at an entry of a directory, where `below` tells those below a directory. What is not there is
passed over. -/
def filesAt (m : MemoryStorage) (below : RawPath → Option (List RawPath)) (path : RawPath) :
    Option (List RawPath) :=
  match m.statAt path.components with
  | .ok found => if found.isDirectory then below path else some (if found.isFile then [path] else [])
  | .error _ => some []

/-- The files that listing a directory, and then the directories in it, leads to. Directories are listed down
to the given number of levels; there is no result if that leaves one out. -/
def walk (m : MemoryStorage) : (levels : Nat) → (directory : RawPath) → Option (List RawPath)
  | 0, _ => none
  | levels + 1, directory =>
    match m.listAt directory.components with
    | .ok names => (names.mapM fun name => m.filesAt (m.walk levels) (directory.join name)).map List.flatten
    | .error _ => some []

/-! ## Changes -/

/-- One change of the files. -/
inductive Change where
  | write (path : RawPath) (content : Bytes)
  | delete (path : RawPath)

/-- The files after a change. -/
def Change.apply (m : MemoryStorage) : Change → MemoryStorage
  | write path content => m.writeAt path.components content
  | delete path => m.deleteAt path.components

/-- The files that some changes leave, starting without any. -/
def after (changes : List Change) : MemoryStorage := changes.foldl Change.apply {}

theorem Kept.apply {m : MemoryStorage} (h : m.Kept) (change : Change) : (change.apply m).Kept := by
  cases change with
  | write path content =>
    refine ⟨ordered_writeAt h.ordered path.components content, fun f hf => ?_⟩
    rcases mem_putIn hf with rfl | hf
    · exact ⟨path, rfl⟩
    · exact h.spelled f hf
  | delete path =>
    exact ⟨ordered_deleteAt h.ordered path.components, fun f hf => h.spelled f (List.mem_of_mem_filter hf)⟩

theorem kept_after (changes : List Change) : (after changes).Kept :=
  List.foldlRecOn (motive := Kept) _ _ ⟨List.Pairwise.nil, by simp⟩ fun _ h change _ => h.apply change

/-! ## Names in the order of entries -/

/-- Whether a name may stand before another in a listing: names stand in the order of the components that are
written so. -/
def NameLE (a b : String) : Prop := (compare (Component.ofText a) (Component.ofText b)).isLE = true

instance : Std.Antisymm NameLE where
  antisymm a b hab hba := by
    have hsame : Component.ofText a = Component.ofText b :=
      Std.LawfulEqOrd.eq_of_compare (Std.OrientedCmp.isLE_antisymm hab hba)
    rw [← Component.text_ofText a, hsame, Component.text_ofText]

variable {m : MemoryStorage} {directory : List Component}

theorem Coherent.sorted_names (h : m.Coherent) (htext : m.TextBelow directory) :
    ((m.below directory).map (entryName directory)).Pairwise NameLE := by
  refine List.pairwise_map.mpr ((h.ordered.entries directory).imp_of_mem fun {f g} hf hg hle => ?_)
  obtain ⟨hf, c, rest, hfpath⟩ := mem_below.mp hf
  obtain ⟨hg, d, other, hgpath⟩ := mem_below.mp hg
  rw [NameLE, entryName_eq hfpath, entryName_eq hgpath, h.ofText_text htext hf hfpath,
    h.ofText_text htext hg hgpath]
  exact hle c d rest other hfpath hgpath

/-! ## What a directory lists -/

theorem below_eq (m : MemoryStorage) (directory : List Component) :
    m.below directory = m.files.filter fun f => directory <+: f.path ∧ f.path ≠ directory := by
  refine List.filter_congr fun f _ => ?_
  rw [Bool.eq_iff_iff, decide_eq_true_eq, Option.isSome_iff_exists]
  simp only [next?_eq_some_iff]
  constructor
  · rintro ⟨c, rest, hpath⟩
    exact ⟨⟨c :: rest, hpath.symm⟩, fun hsame => by simpa [hsame] using congrArg List.length hpath⟩
  · rintro ⟨⟨rest, hpath⟩, hne⟩
    cases rest with
    | nil => exact absurd (by simpa using hpath.symm) hne
    | cons c rest => exact ⟨c, rest, hpath.symm⟩

/-- A directory without files below it is not listed. -/
theorem list_of_empty (h : m.below directory = []) : m.listAt directory = .error .absent := by
  have hnone : (m.files.filterMap fun f => (next? directory f.path).map Component.text) = [] := by
    refine List.filterMap_eq_nil_iff.mpr fun f hf => ?_
    have hnext := List.filter_eq_nil_iff.mp h f hf
    rw [Option.not_isSome_iff_eq_none] at hnext
    rw [hnext]
    rfl
  rw [listAt, hnone]

/-- What is listed has files below it. -/
theorem below_of_list {names : List String} (h : m.listAt directory = .ok names) :
    m.below directory ≠ [] ∧ names = dropRepeated ((m.below directory).map (entryName directory)) := by
  by_cases hempty : m.below directory = []
  · rw [list_of_empty hempty] at h
    cases h
  · rw [list_of_below hempty] at h
    cases h
    exact ⟨hempty, rfl⟩

/-- A directory is listed if it is there. -/
theorem Coherent.list_iff (h : m.Coherent) (directory : List Component) :
    (∃ names, m.listAt directory = .ok names) ↔
      ∃ found, m.statAt directory = .ok found ∧ found.isDirectory = true := by
  constructor
  · rintro ⟨names, hlist⟩
    exact ⟨_, h.stat_directory (below_of_list hlist).1, rfl⟩
  · rintro ⟨found, hstat, hdirectory⟩
    exact ⟨_, list_of_below (below_of_isDirectory (by simp [hstat, hdirectory, Except.toOption]))⟩

/-- A listed name is that of the entry that some file is or lies below. -/
theorem exists_of_listed {names : List String} (hlist : m.listAt directory = .ok names) {name : String}
    (hname : name ∈ names) :
    ∃ f ∈ m.files, ∃ c rest, f.path = directory ++ c :: rest ∧ name = c.text := by
  obtain ⟨-, rfl⟩ := below_of_list hlist
  obtain ⟨f, hf, rfl⟩ := List.mem_map.mp (mem_dropRepeated.mp hname)
  obtain ⟨hf, c, rest, hpath⟩ := mem_below.mp hf
  exact ⟨f, hf, c, rest, hpath, entryName_eq hpath⟩

/-- An entry is the one file there, or a directory with what is below it. -/
theorem Coherent.stat_entry (h : m.Coherent) {directory : RawPath} (htext : m.TextBelow directory.components)
    {f : MemoryFile} (hf : f ∈ m.files) {c : Component} {rest : List Component}
    (hpath : f.path = directory.components ++ c :: rest) :
    let path := directory.join c.text
    path.components = f.path ∧ m.statAt path.components = .ok ⟨true, false, f.content.length⟩ ∧
        m.atEntry directory.components c.text = [f] ∨
      f ∈ m.below path.components ∧ m.statAt path.components = .ok ⟨false, true, 0⟩ ∧
        m.atEntry directory.components c.text = m.below path.components := by
  intro path
  have hentry : path.components = directory.components ++ [c] := h.components_join htext hf hpath
  cases rest with
  | nil =>
    have hfile : path.components = f.path := by rw [hentry, hpath]
    exact Or.inl ⟨hfile, hfile ▸ h.statAt_file hf, h.atEntry_file htext hf hpath⟩
  | cons d rest =>
    have hmem : f ∈ m.below path.components :=
      mem_below.mpr ⟨hf, d, rest, by rw [hentry, hpath, List.append_assoc, List.singleton_append]⟩
    refine Or.inr ⟨hmem, h.stat_directory (List.ne_nil_of_mem hmem), ?_⟩
    rw [hentry]
    exact h.atEntry_directory htext hf hpath

/-- Of the listed names exactly one leads to a file below the directory. -/
theorem Coherent.existsUnique_listed (h : m.Coherent) {directory : RawPath}
    (htext : m.TextBelow directory.components) {f : MemoryFile} (hf : f ∈ m.below directory.components) :
    ∃ names, m.listAt directory.components = .ok names ∧
      ∃! name, name ∈ names ∧ (directory.join name).components <+: f.path := by
  have hlist := list_of_below (List.ne_nil_of_mem hf)
  refine ⟨_, hlist, ?_⟩
  obtain ⟨hfile, c, rest, hpath⟩ := mem_below.mp hf
  refine ⟨c.text, ⟨?_, ?_⟩, ?_⟩
  · exact mem_dropRepeated.mpr (List.mem_map.mpr ⟨f, hf, entryName_eq hpath⟩)
  · rw [h.components_join htext hfile hpath, hpath]
    exact ⟨rest, by rw [List.append_assoc, List.singleton_append]⟩
  · rintro name ⟨hname, hleads⟩
    obtain ⟨g, hg, d, other, hgpath, rfl⟩ := exists_of_listed hlist hname
    rw [h.components_join htext hg hgpath, hpath, List.prefix_append_right_inj,
      List.cons_prefix_cons] at hleads
    rw [hleads.1]

/-! ## What a walk comes to -/

/-- Lists that are found one by one are found together. -/
theorem mapM_flatten {α β γ : Type} {find : α → Option (List β)} {expected : α → List γ} {key : β → γ}
    {as : List α} (h : ∀ a ∈ as, ∃ bs, find a = some bs ∧ bs.map key = expected a) :
    ∃ bs, (as.mapM find).map List.flatten = some bs ∧ bs.map key = as.flatMap expected := by
  induction as with
  | nil => exact ⟨[], rfl, rfl⟩
  | cons a rest ih =>
    obtain ⟨first, hfirst, hkeys⟩ := h a (by simp)
    obtain ⟨others, hothers, hrest⟩ := ih fun b hb => h b (by simp [hb])
    obtain ⟨found, hfound, rfl⟩ := Option.map_eq_some_iff.mp hothers
    refine ⟨first ++ found.flatten, ?_, ?_⟩
    · simp [List.mapM_cons, hfirst, hfound]
    · rw [List.map_append, hkeys, hrest, List.flatMap_cons]

/-- The walk comes to the files below the directory, in their order. -/
def Walks (m : MemoryStorage) (levels : Nat) (directory : RawPath) : Prop :=
  ∃ paths, m.walk levels directory = some paths ∧
    paths.map RawPath.components = (m.below directory.components).map (·.path)

/-- The files below the directory are at most so many levels below it. -/
def WithinLevels (m : MemoryStorage) (levels : Nat) (directory : RawPath) : Prop :=
  ∀ f ∈ m.below directory.components, f.path.length ≤ directory.components.length + levels

/-- At an entry is a file, or walks come to the files below it. -/
theorem Coherent.filesAt_entry (h : m.Coherent) {levels : Nat} {directory : RawPath}
    (htext : m.TextBelow directory.components) (hdepth : m.WithinLevels (levels + 1) directory)
    (hwalks : ∀ inner, m.TextBelow inner.components → 0 < levels → m.WithinLevels levels inner →
      m.Walks levels inner)
    {f : MemoryFile} (hf : f ∈ m.files) {c : Component} {rest : List Component}
    (hpath : f.path = directory.components ++ c :: rest) :
    ∃ paths, m.filesAt (m.walk levels) (directory.join c.text) = some paths ∧
      paths.map RawPath.components = (m.atEntry directory.components c.text).map (·.path) := by
  rcases h.stat_entry htext hf hpath with ⟨hfile, hstat, hentry⟩ | ⟨hbelow, hstat, hentry⟩
  · refine ⟨[directory.join c.text], ?_, by rw [hentry, List.map_singleton, List.map_singleton, hfile]⟩
    simp [filesAt, hstat]
  · have hjoin := h.components_join htext hf hpath
    have hlower : m.WithinLevels levels (directory.join c.text) := by
      intro g hg
      have hmem : g ∈ m.below directory.components :=
        List.mem_of_mem_filter (hentry ▸ hg : g ∈ m.atEntry directory.components c.text)
      have hlength := hdepth g hmem
      rw [hjoin, List.length_append, List.length_singleton]
      omega
    -- the entry is a level above a file of the directory
    have hlevel : 0 < levels := by
      obtain ⟨-, d, other, hfpath⟩ := mem_below.mp hbelow
      have hlength := hlower f hbelow
      rw [hfpath, List.length_append, List.length_cons] at hlength
      omega
    obtain ⟨paths, hwalk, hcomponents⟩ := hwalks _ (hjoin ▸ htext.inner c) hlevel hlower
    refine ⟨paths, ?_, by rw [hentry, hcomponents]⟩
    simp only [filesAt, hstat]
    exact hwalk

/-- A walk that goes as deep as the files below a directory comes to each of them. -/
theorem Coherent.walks (h : m.Coherent) {levels : Nat} (directory : RawPath)
    (htext : m.TextBelow directory.components) (hpositive : 0 < levels)
    (hdepth : m.WithinLevels levels directory) : m.Walks levels directory := by
  induction levels generalizing directory with
  | zero => exact absurd hpositive (lt_irrefl 0)
  | succ levels ih =>
    by_cases hempty : m.below directory.components = []
    · refine ⟨[], ?_, by rw [hempty]; rfl⟩
      rw [walk, list_of_empty hempty]
    · have hlist := list_of_below hempty
      have hfound : ∀ name ∈ dropRepeated ((m.below directory.components).map (entryName directory.components)),
          ∃ paths, m.filesAt (m.walk levels) (directory.join name) = some paths ∧
            paths.map RawPath.components = (m.atEntry directory.components name).map (·.path) := by
        intro name hname
        obtain ⟨f, hf, c, rest, hpath, rfl⟩ := exists_of_listed hlist hname
        exact h.filesAt_entry htext hdepth ih hf hpath
      obtain ⟨paths, hpaths, hcomponents⟩ := mapM_flatten hfound
      refine ⟨paths, by rw [walk, hlist]; exact hpaths, ?_⟩
      -- the files below the directory are those at its entries, name by name
      rw [hcomponents, ← List.map_flatMap]
      exact congrArg _ (flatMap_dropRepeated _ _ (h.sorted_names htext))

/-! ## Coherence -/

/-- In what some changes leave, if no file is a directory of another, exactly the directories that are there
are listed, and no two files have the same path. Below a directory where all names are texts, the names in a
listing are different, each leads to something, and exactly one leads to each file below the directory. A walk
comes to an end there, and comes to every file below the directory once. -/
theorem listing_coherent (changes : List Change) (directory : RawPath)
    (h : ∀ f ∈ (after changes).files, ∀ g ∈ (after changes).files, f.path <+: g.path → f.path = g.path) :
    let m := after changes
    let isBelow (f : MemoryFile) := directory.components <+: f.path ∧ f.path ≠ directory.components
    ((∃ names, m.listAt directory.components = .ok names) ↔
      ∃ found, m.statAt directory.components = .ok found ∧ found.isDirectory = true) ∧
    (m.files.map (·.path)).Nodup ∧
    ((∀ f ∈ m.files, isBelow f → ∀ c ∈ f.path.drop directory.components.length, c.isText = true) →
      (∀ names, m.listAt directory.components = .ok names → names.Nodup ∧
        ∀ name ∈ names, ∃ found, m.statAt (directory.join name).components = .ok found) ∧
      (∀ f ∈ m.files, isBelow f → ∃ names, m.listAt directory.components = .ok names ∧
        ∃! name, name ∈ names ∧ (directory.join name).components <+: f.path) ∧
      ∀ levels, m.toStorage.depth < levels → ∃ paths, m.walk levels directory = some paths ∧
        paths.map RawPath.components = (m.files.filter fun f => isBelow f).map (·.path)) := by
  intro m isBelow
  have hcoherent : m.Coherent := ⟨kept_after changes, h⟩
  have hbelow : m.below directory.components = m.files.filter fun f => isBelow f :=
    below_eq m directory.components
  refine ⟨hcoherent.list_iff _, hcoherent.ordered.nodup_paths, fun hnames => ?_⟩
  have htext : m.TextBelow directory.components := by
    intro f hf below hpath c hc
    refine hnames f hf ⟨⟨below, hpath.symm⟩, fun hsame => ?_⟩ c (by rwa [hpath, List.drop_left])
    obtain rfl : below = [] := by simpa [hpath] using hsame
    cases hc
  refine ⟨fun names hlist => ⟨?_, fun name hname => ?_⟩, fun f hf hisbelow => ?_, fun levels hlevels => ?_⟩
  · rw [(below_of_list hlist).2]
    exact (pairwise_dropRepeated (hcoherent.sorted_names htext)).imp And.right
  · obtain ⟨f, hf, c, rest, hpath, rfl⟩ := exists_of_listed hlist hname
    rcases hcoherent.stat_entry htext hf hpath with ⟨-, hstat, -⟩ | ⟨-, hstat, -⟩
    · exact ⟨_, hstat⟩
    · exact ⟨_, hstat⟩
  · exact hcoherent.existsUnique_listed htext (hbelow ▸ List.mem_filter.mpr ⟨hf, by simpa using hisbelow⟩)
  · rw [← hbelow]
    refine hcoherent.walks directory htext (Nat.zero_lt_of_lt hlevels) fun f hf => ?_
    have hlength := length_le_depth m (mem_below.mp hf).1
    omega

/-- The path of a file whose name is bytes after a directory. -/
def rawEntry (directory : Path) (bytes : Bytes) : RawPath := ⟨directory.raw.bytes ++ RawPath.slash :: bytes⟩

/-- Some files whose paths are written in different ways, one of them deleted again: as strings `/p/a.robot`
stands between `/p/a` and `/p/a/b`. A name outside of `/p` is not UTF-8. -/
def someChanges : List Change :=
  [.write (Path.raw ⟨"/p/a/b.robot"⟩) [], .write (Path.raw ⟨"/p/a.robot"⟩) [],
    .write (Path.raw ⟨"/p//a/./c"⟩) [65], .write (Path.raw ⟨"./p/q"⟩) [], .write (Path.raw ⟨"/p/../r"⟩) [],
    .write (Path.raw ⟨"/p"⟩) [], .delete (Path.raw ⟨"/p/"⟩), .write (Path.raw ⟨"/p/a-b/a/b.robot"⟩) [],
    .write (rawEntry ⟨"/q"⟩ [0xFF]) []]

/-- Below the directory four names are listed, and five files are found. -/
theorem listing_coherent_changes :
    (∀ f ∈ (after someChanges).files, ∀ g ∈ (after someChanges).files, f.path <+: g.path → f.path = g.path) ∧
      ((after someChanges).listAt (Path.raw ⟨"/p"⟩).components).toOption = some ["..", "a", "a-b", "a.robot"] ∧
      ∃ paths, (after someChanges).walk 6 (Path.raw ⟨"/p"⟩) = some paths ∧ paths.length = 5 := by
  have hapart : ∀ f ∈ (after someChanges).files, ∀ g ∈ (after someChanges).files,
      f.path <+: g.path → f.path = g.path := by
    decide +kernel
  let directory := Path.raw ⟨"/p"⟩
  let isBelow (f : MemoryFile) := directory.components <+: f.path ∧ f.path ≠ directory.components
  have hrun : (after someChanges).toStorage.depth < 6 ∧
      ((after someChanges).listAt directory.components).toOption = some ["..", "a", "a-b", "a.robot"] ∧
      ((after someChanges).files.filter fun f => isBelow f).length = 5 ∧
      ∀ f ∈ (after someChanges).files, isBelow f →
        ∀ c ∈ f.path.drop directory.components.length, c.isText = true := by
    decide +kernel
  obtain ⟨hdepth, hlist, hcount, hnames⟩ := hrun
  obtain ⟨-, -, hbelow⟩ := listing_coherent someChanges directory hapart
  obtain ⟨-, -, hwalk⟩ := hbelow hnames
  obtain ⟨paths, hpaths, hcomponents⟩ := hwalk 6 hdepth
  refine ⟨hapart, hlist, paths, hpaths, ?_⟩
  rw [← List.length_map, hcomponents, List.length_map]
  exact hcount

/-- Two files whose names are not UTF-8, on both sides of one whose name is. -/
def rawChanges : List Change :=
  [.write (rawEntry ⟨"/p"⟩ [0xC3]) [], .write (Path.raw ⟨"/p/é"⟩) [], .write (rawEntry ⟨"/p"⟩ [0xC4]) []]

/-- A file at the empty path. -/
def emptyChanges : List Change := [.write (Path.raw ⟨""⟩) [], .write (Path.raw ⟨"/a"⟩) []]

/-- Names that are not UTF-8 may be listed alike, and nothing is found by them. The empty path begins every
other: though going up from `/a` does not lead to it, a file there is listed as a directory. -/
theorem listing_incoherent :
    ((∀ f ∈ (after rawChanges).files, ∀ g ∈ (after rawChanges).files, f.path <+: g.path → f.path = g.path) ∧
      ((after rawChanges).listAt (Path.raw ⟨"/p"⟩).components).toOption = some ["\uFFFD", "é", "\uFFFD"] ∧
      ((after rawChanges).statAt ((Path.raw ⟨"/p"⟩).join "\uFFFD").components).toOption = none) ∧
    (Path.parent? ⟨"/a"⟩ = some ⟨"/"⟩ ∧ Path.parent? ⟨"/"⟩ = none ∧
      ((after emptyChanges).list ⟨""⟩).toOption = some ["/"] ∧
      ((after emptyChanges).stat ⟨""⟩).toOption.map (·.isDirectory) = some false) := by
  decide +kernel

end MemoryStorage

end KeywordIndex
