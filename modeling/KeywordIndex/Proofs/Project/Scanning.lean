import KeywordIndex.Proofs.Project.Loading
import KeywordIndex.Proofs.Storage.Memory

namespace KeywordIndex

open Text MemoryStorage

/-! # What a scan indexes

In a tidy storage a scan comes to the files below its root one after another, as they stand
(`visitDirectory_eq`): a directory takes the files below each of its entries in turn, and an entry that is
passed over takes all files below it along. So a scan indexes exactly the table files among those that it
comes to, in the order of the walk (`scan_exact`).
-/

/-- The path of a file as it is spelled on the way from a directory. -/
def MemoryFile.pathFrom (f : MemoryFile) (directory : Path) : Path :=
  (f.path.drop directory.components.length).foldl (fun path c => path.join ⟨c.text⟩) directory

/-- The record of a file that is a table file. -/
def MemoryFile.record (f : MemoryFile) : SourceFile := .ofTable (Robot.parse (decode f.content)) f.location

theorem MemoryFile.key_record (f : MemoryFile) : f.record.key = f.location.key := SourceFile.key_ofTable _ _

namespace Loader

variable {l : Loader} {m : MemoryStorage} {f : MemoryFile} {directory : Path}

/-- Whether a scan of a directory passes over a file below it: it is in the output directory of the
generator, or a name on the way is excluded. -/
def passesOver (l : Loader) (directory : Path) (f : MemoryFile) : Bool :=
  (f.path.drop directory.components.length).any (fun c => l.isExcluded c.text) ||
    l.settings.generates f.location.key

/-- Visits a file below a directory, unless it is passed over. -/
def visitFound (l : Loader) (directory : Path) (s : Scan) (f : MemoryFile) : Scan :=
  if l.passesOver directory f then s else l.visitFile (f.pathFrom directory) s

/-! ## One entry -/

section Entries

variable {rest : List Component} {c : Component} {s : Scan}

/-- What is in the output directory of the generator takes what is below it along. -/
theorem generates_below (h : m.Tidy) (hf : f ∈ m.files) {path : Path} (hne : path.components ≠ [])
    (hbegins : path.components <+: f.path) (hgenerates : l.settings.generates path.key = true) :
    l.settings.generates f.location.key = true := by
  unfold Settings.generates at hgenerates ⊢
  rw [Bool.and_eq_true] at hgenerates ⊢
  exact ⟨hgenerates.1, h.isWithin_below hf hne hbegins hgenerates.2⟩

theorem drop_eq (hpath : f.path = directory.components ++ c :: rest) :
    f.path.drop directory.components.length = c :: rest := by
  rw [hpath, List.drop_left]

/-- A file is seen from an entry as from the directory of the entry. -/
theorem pathFrom_join (h : m.Tidy) (hf : f ∈ m.files)
    (hpath : f.path = directory.components ++ c :: rest) :
    f.pathFrom (directory.join ⟨c.text⟩) = f.pathFrom directory := by
  have hentry := h.components_join hf hpath
  have hbelow : f.path = (directory.join ⟨c.text⟩).components ++ rest := by
    rw [hentry, hpath, List.append_assoc, List.singleton_append]
  unfold MemoryFile.pathFrom
  rw [drop_eq hpath, List.foldl_cons]
  congr 1
  rw [hbelow, List.drop_left]

theorem passesOver_join (h : m.Tidy) (hf : f ∈ m.files)
    (hpath : f.path = directory.components ++ c :: rest) (hexcluded : l.isExcluded c.text = false) :
    l.passesOver (directory.join ⟨c.text⟩) f = l.passesOver directory f := by
  have hentry := h.components_join hf hpath
  have hbelow : f.path = (directory.join ⟨c.text⟩).components ++ rest := by
    rw [hentry, hpath, List.append_assoc, List.singleton_append]
  have hdrop : f.path.drop (directory.join ⟨c.text⟩).components.length = rest := by
    conv_lhs => rw [hbelow]
    exact List.drop_left
  unfold passesOver
  rw [hdrop, drop_eq hpath, List.any_cons, hexcluded, Bool.false_or]

/-- The spelled path of a file has the components of the file. -/
theorem components_pathFrom (h : m.Tidy) (hf : f ∈ m.files)
    (hpath : f.path = directory.components ++ rest) : (f.pathFrom directory).components = f.path := by
  induction rest generalizing directory with
  | nil =>
    rw [List.append_nil] at hpath
    unfold MemoryFile.pathFrom
    rw [hpath, List.drop_length]
    rfl
  | cons c rest ih =>
    rw [← pathFrom_join h hf hpath]
    exact ih (by rw [h.components_join hf hpath, hpath, List.append_assoc, List.singleton_append])

theorem foldl_visitFound_of_passed {files : List MemoryFile}
    (h : ∀ f ∈ files, l.passesOver directory f = true) : files.foldl (l.visitFound directory) s = s := by
  induction files with
  | nil => rfl
  | cons f rest ih =>
    rw [List.foldl_cons, visitFound, if_pos (h f (by simp))]
    exact ih fun g hg => h g (by simp [hg])

/-- Visiting an entry visits the files that it is or holds. -/
theorem visitEntry_eq (h : m.Tidy) (hstorage : l.storage = m.toStorage) {visitBelow : Path → Scan → Scan}
    (hbelow : ∀ f ∈ m.files, ∀ c d rest s, f.path = directory.components ++ c :: d :: rest →
      visitBelow (directory.join ⟨c.text⟩) s =
        (m.below (directory.components ++ [c])).foldl (l.visitFound (directory.join ⟨c.text⟩)) s)
    (hf : f ∈ m.files) (hpath : f.path = directory.components ++ c :: rest) (s : Scan) :
    l.visitEntry visitBelow directory s c.text =
      (atEntry m directory.components c.text).foldl (l.visitFound directory) s := by
  have hentry := h.components_join hf hpath
  have hgenerated : l.isGenerated (directory.join ⟨c.text⟩) =
      l.settings.generates (directory.join ⟨c.text⟩).key := rfl
  unfold visitEntry
  simp only [hgenerated]
  split
  · next hpassed =>
    rw [foldl_visitFound_of_passed]
    intro g hg
    obtain ⟨hg, other, hgpath⟩ := (h.coherent.mem_atEntry (h.textBelow _) hf hpath).mp hg
    rw [passesOver, drop_eq hgpath, List.any_cons]
    rcases Bool.or_eq_true_iff.mp hpassed with hexcluded | hgenerates
    · simp [hexcluded]
    · have hbegins : (directory.join ⟨c.text⟩).components <+: g.path :=
        ⟨other, by rw [hentry, hgpath, List.append_assoc]; rfl⟩
      simp [generates_below h hg (by simp [hentry]) hbegins hgenerates]
  · next hkept =>
    rw [Bool.not_eq_true, Bool.or_eq_false_iff] at hkept
    cases rest with
    | nil =>
      have hcomponents : (directory.join ⟨c.text⟩).components = f.path := by rw [hentry, hpath]
      have hstat := (h.coherent.stat_file hf hcomponents).stat
      have hkey := (h.key_eq hf hcomponents).2
      have hpasses : l.passesOver directory f = false := by
        rw [passesOver, drop_eq hpath, ← hkey, hkept.2]
        simp [hkept.1]
      have hspelled : f.pathFrom directory = directory.join ⟨c.text⟩ := by
        rw [MemoryFile.pathFrom, drop_eq hpath]
        rfl
      simp [hstorage, hstat, h.coherent.atEntry_file (h.textBelow _) hf hpath, visitFound, hpasses, hspelled]
    | cons d rest =>
      have hne : m.below (directory.join ⟨c.text⟩).components ≠ [] :=
        List.ne_nil_of_mem (mem_below.mpr ⟨hf, d, rest, by rw [hentry, hpath, List.append_assoc]; rfl⟩)
      have hstat : l.storage.stat (directory.join ⟨c.text⟩) = .ok ⟨false, true, 0⟩ := by
        rw [hstorage]
        exact h.stat_directory hne
      rw [hstat, h.coherent.atEntry_directory (h.textBelow _) hf hpath]
      simp only [if_true]
      rw [hbelow f hf c d rest s hpath]
      -- below the entry nothing is passed over for its name
      refine List.foldl_ext _ _ _ fun s g hg => ?_
      obtain ⟨hg, e, other, hgpath⟩ := mem_below.mp hg
      rw [List.append_assoc, List.singleton_append] at hgpath
      rw [visitFound, visitFound, passesOver_join h hg hgpath hkept.1, pathFrom_join h hg hgpath]

end Entries

/-! ## Directories -/

/-- Visiting the entries of a directory in the order of their names visits the files below it. -/
theorem foldl_visitEntry (h : m.Tidy) (hstorage : l.storage = m.toStorage)
    {visitBelow : Path → Scan → Scan}
    (hbelow : ∀ f ∈ m.files, ∀ c d rest s, f.path = directory.components ++ c :: d :: rest →
      visitBelow (directory.join ⟨c.text⟩) s =
        (m.below (directory.components ++ [c])).foldl (l.visitFound (directory.join ⟨c.text⟩)) s)
    (s : Scan) :
    ((dropRepeated ((m.below directory.components).map (entryName directory.components))).mergeSort
        (· ≤ ·)).foldl (l.visitEntry visitBelow directory) s =
      (m.below directory.components).foldl (l.visitFound directory) s := by
  have hsorted := h.sorted_entryNames directory.components
  rw [List.mergeSort_of_pairwise ((pairwise_dropRepeated hsorted).imp fun hle => by simpa using hle.1)]
  conv_rhs => rw [← flatMap_dropRepeated _ _ hsorted, List.foldl_flatMap]
  refine List.foldl_ext _ _ _ fun s name hname => ?_
  obtain ⟨f, hf, rfl⟩ := List.mem_map.mp (mem_dropRepeated.mp hname)
  obtain ⟨hf, c, rest, hpath⟩ := mem_below.mp hf
  rw [entryName_eq hpath]
  exact visitEntry_eq h hstorage hbelow hf hpath s

/-- Visiting a directory visits the files below it, if it goes as deep as they are. -/
theorem visitDirectory_eq (h : m.Tidy) (hstorage : l.storage = m.toStorage) (depth : Nat)
    (directory : Path) (s : Scan) (hne : m.below directory.components ≠ [])
    (hdepth : ∀ f ∈ m.below directory.components,
      f.path.length ≤ directory.components.length + depth + 1) :
    l.visitDirectory depth directory s =
      (m.below directory.components).foldl (l.visitFound directory) s := by
  have hlist : ∀ directory : Path, m.below directory.components ≠ [] → l.storage.list directory =
      .ok (dropRepeated ((m.below directory.components).map (entryName directory.components))) :=
    fun directory hne => hstorage ▸ list_of_below hne
  induction depth generalizing directory s with
  | zero =>
    unfold visitDirectory
    simp only [hlist directory hne]
    refine foldl_visitEntry h hstorage (fun f hf c d rest s hpath => ?_) s
    -- there is no directory in the directory
    have hlength := hdepth f (mem_below.mpr ⟨hf, c, d :: rest, hpath⟩)
    rw [hpath, List.length_append, List.length_cons, List.length_cons] at hlength
    omega
  | succ depth ih =>
    unfold visitDirectory
    simp only [hlist directory hne]
    refine foldl_visitEntry h hstorage (fun f hf c d rest s hpath => ?_) s
    have hentry := h.components_join hf hpath
    have hfound : f ∈ m.below (directory.components ++ [c]) :=
      mem_below.mpr ⟨hf, d, rest, by rw [hpath, List.append_assoc]; rfl⟩
    rw [← hentry] at hfound ⊢
    refine ih _ s (List.ne_nil_of_mem hfound) fun g hg => ?_
    obtain ⟨hg, e, other, hgpath⟩ := mem_below.mp hg
    have hgbelow : g.path = directory.components ++ c :: e :: other := by
      rw [hgpath, hentry, List.append_assoc, List.singleton_append]
    have hlength := hdepth g (mem_below.mpr ⟨hg, c, e :: other, hgbelow⟩)
    rw [hentry, List.length_append, List.length_singleton]
    omega

/-! ## One file -/

section Files

variable {path : Path} {content : Bytes} {s : Scan}

/-- Whether the content of a file below the limit is that of a table file. -/
def takes (l : Loader) (path : Path) (content : Bytes) : Bool :=
  content.length < l.settings.sizeLimit && isTableFile (decode content) path l.settings.tableExtensions

/-- Whether the content of a file below the limit is that of a library document, where those are used. -/
def lists (l : Loader) (path : Path) (content : Bytes) : Bool :=
  content.length < l.settings.sizeLimit &&
    !isTableFile (decode content) path l.settings.tableExtensions &&
    isDocumentFile (decode content) path && l.settings.usesProjectDocuments

/-- What is recognised as a library document has the extension of one. -/
theorem isCandidate_of_isDocumentFile {content : List Char} (h : isDocumentFile content path = true)
    (huses : l.settings.usesProjectDocuments = true) : l.isCandidate path = true := by
  unfold isDocumentFile at h
  rw [Bool.and_eq_true, beq_iff_eq] at h
  simp [isCandidate, h.1, huses]

/-- Visiting a file adds its record or lists its document, or neither. -/
theorem visitFile_eq (hfile : l.storage.HasFile path content)
    (hplace : l.settings.generates path.key = false) (s : Scan) :
    let later := l.visitFile path s
    later.index = (if l.takes path content then
        s.index.add (.ofTable (Robot.parse (decode content)) path) else s.index) ∧
      later.indexed = s.indexed + (if l.takes path content then 1 else 0) ∧
      later.documents = s.documents ++ (if l.lists path content then [path] else []) := by
  have hgenerated : l.isGenerated path = false := hplace
  generalize hrecord : SourceFile.ofTable (Robot.parse (decode content)) path = f
  by_cases hsize : content.length < l.settings.sizeLimit
  · by_cases htable : isTableFile (decode content) path l.settings.tableExtensions = true
    · have hload := loadFile_of_finds ((finds_iff hfile hplace).mpr ⟨⟨hsize, htable⟩, hrecord.symm⟩) s.index
      unfold visitFile
      rw [hload]
      simp [takes, lists, hsize, htable]
    · have hread := readLimited_of_small hfile hsize
      by_cases hdocument : isDocumentFile (decode content) path = true ∧
          l.settings.usesProjectDocuments = true
      · have hcandidate := isCandidate_of_isDocumentFile hdocument.1 hdocument.2
        have hload : l.loadFile path s.index = .ok (s.index, .document path) := by
          simp [loadFile, hcandidate, hgenerated, hread, classify, htable, hdocument]
        unfold visitFile
        rw [hload]
        simp [takes, lists, hsize, htable, hdocument]
      · have hload : l.loadFile path s.index = .ok (s.index, .notApplicable) := by
          unfold loadFile
          split
          · rfl
          · simp [hread, classify, htable, hdocument]
        unfold visitFile
        rw [hload]
        simp [takes, lists, hsize, htable, hdocument]
  · have hread := readLimited_of_large hfile (Nat.not_lt.mp hsize)
    have hload : (∃ e, l.loadFile path s.index = .error e) ∨
        l.loadFile path s.index = .ok (s.index, .notApplicable) := by
      unfold loadFile
      rw [hread]
      split
      · exact Or.inr rfl
      · exact Or.inl ⟨_, rfl⟩
    unfold visitFile
    rcases hload with ⟨e, hload⟩ | hload
    · rw [hload]
      simp [takes, lists, hsize]
    · rw [hload]
      simp [takes, lists, hsize]

end Files

/-! ## All files of a walk -/

/-- Where the files of a storage are found, they are taken and listed as at their locations. -/
theorem takes_congr {p q : Path} (h : p.components = q.components) (content : Bytes) :
    l.takes p content = l.takes q content ∧ l.lists p content = l.lists q content := by
  simp only [takes, lists, isTableFile_congr h, isDocumentFile, Path.lowerExtension?_congr h, and_self]

theorem files_add {index : Index} {f : SourceFile} (h : ∀ g ∈ index.files, g.key ≠ f.key) :
    (index.add f).files = index.files ++ [f] := by
  have general : ∀ files : List SourceFile, (∀ g ∈ files, g.key ≠ f.key) →
      Index.putIn f files = files ++ [f] := by
    intro files h
    induction files with
    | nil => rfl
    | cons g rest ih =>
      rw [Index.putIn, if_neg (h g (by simp)), ih fun other hother => h other (by simp [hother])]
      rfl
  exact general _ h

/-- Whether a walk indexes a file. -/
def takesAt (l : Loader) (directory : Path) (f : MemoryFile) : Bool :=
  !l.passesOver directory f && l.takes f.location f.content

/-- Whether a walk lists a file as a document. -/
def listsAt (l : Loader) (directory : Path) (f : MemoryFile) : Bool :=
  !l.passesOver directory f && l.lists f.location f.content

/-- A walk adds the record of a file that it indexes, and the document that it lists. -/
theorem visitFound_eq (h : m.Tidy) (hstorage : l.storage = m.toStorage)
    (hf : f ∈ m.below directory.components) {s : Scan}
    (hfresh : ∀ g ∈ s.index.files, g.key ≠ f.location.key) :
    let later := l.visitFound directory s f
    later.index.files = s.index.files ++ (if l.takesAt directory f then [f.record] else []) ∧
      later.indexed = s.indexed + (if l.takesAt directory f then 1 else 0) ∧
      later.documents.map Path.components =
        s.documents.map Path.components ++ (if l.listsAt directory f then [f.path] else []) := by
  cases hpasses : l.passesOver directory f with
  | true =>
    have hskipped : l.visitFound directory s f = s := if_pos hpasses
    simp [hskipped, takesAt, listsAt, hpasses]
  | false =>
    obtain ⟨hf, c, rest, hpath⟩ := mem_below.mp hf
    have hcomponents := components_pathFrom h hf hpath
    obtain ⟨hnormal, hkey⟩ := h.key_eq hf hcomponents
    have hplace : l.settings.generates (f.pathFrom directory).key = false := by
      rw [passesOver, Bool.or_eq_false_iff] at hpasses
      rw [hkey]
      exact hpasses.2
    have hrecord : SourceFile.ofTable (Robot.parse (decode f.content)) (f.pathFrom directory) =
        f.record := by
      simp only [MemoryFile.record, SourceFile.ofTable, hnormal,
        (h.key_eq hf (h.components_location hf)).1]
    obtain ⟨htakes, hlists⟩ := takes_congr (l := l)
      (hcomponents.trans (h.components_location hf).symm) f.content
    obtain ⟨hindex, hindexed, hlisted⟩ :=
      visitFile_eq (hstorage ▸ h.coherent.stat_file hf hcomponents) hplace s
    have hvisited : l.visitFound directory s f = l.visitFile (f.pathFrom directory) s :=
      if_neg (by simp [hpasses])
    have hadded : (s.index.add f.record).files = s.index.files ++ [f.record] :=
      files_add fun g hg => by
        rw [f.key_record]
        exact hfresh g hg
    simp only [hvisited, takesAt, listsAt, hpasses, Bool.not_false, Bool.true_and]
    rw [hindex, hindexed, hlisted, htakes, hlists, hrecord]
    refine ⟨?_, rfl, ?_⟩
    · split
      · exact hadded
      · exact (List.append_nil _).symm
    · split
      · rw [List.map_append, List.map_singleton, hcomponents]
      · simp

/-- A walk over files with different keys adds the records of those that it indexes, and lists the
documents, in their order. -/
theorem foldl_visitFound (h : m.Tidy) (hstorage : l.storage = m.toStorage) {files : List MemoryFile}
    (hfiles : ∀ f ∈ files, f ∈ m.below directory.components)
    (hkeys : files.Pairwise fun f g => f.location.key ≠ g.location.key) (s : Scan)
    (hfresh : ∀ g ∈ s.index.files, ∀ f ∈ files, g.key ≠ f.location.key) :
    let later := files.foldl (l.visitFound directory) s
    later.index.files = s.index.files ++ (files.filter (l.takesAt directory)).map MemoryFile.record ∧
      later.indexed = s.indexed + (files.filter (l.takesAt directory)).length ∧
      later.documents.map Path.components =
        s.documents.map Path.components ++ (files.filter (l.listsAt directory)).map (·.path) := by
  induction files generalizing s with
  | nil => simp
  | cons f rest ih =>
    obtain ⟨hfirst, hrest⟩ := List.pairwise_cons.mp hkeys
    obtain ⟨hindex, hindexed, hdocuments⟩ := visitFound_eq h hstorage (hfiles f (by simp))
      fun g hg => hfresh g hg f (by simp)
    have hfreshAfter : ∀ g ∈ (l.visitFound directory s f).index.files, ∀ other ∈ rest,
        g.key ≠ other.location.key := by
      intro g hg other hother
      rw [hindex, List.mem_append] at hg
      rcases hg with hg | hg
      · exact hfresh g hg other (by simp [hother])
      · split at hg
        · rw [List.mem_singleton.mp hg, f.key_record]
          exact hfirst other hother
        · cases hg
    obtain ⟨hindexRest, hindexedRest, hdocumentsRest⟩ :=
      ih (fun g hg => hfiles g (by simp [hg])) hrest _ hfreshAfter
    simp only [List.foldl_cons]
    rw [hindexRest, hindexedRest, hdocumentsRest, hindex, hindexed, hdocuments, List.filter_cons,
      List.filter_cons]
    refine ⟨?_, ?_, ?_⟩
    · split <;> simp
    · split <;> simp [Nat.add_assoc, Nat.add_comm]
    · split <;> simp

/-! ## Scans -/

/-- A scan of the root comes to the file: it is below the root, no name on the way from there is excluded,
and the output directory of the generator, if there is one, does not hold it. -/
structure Reaches (l : Loader) (root : Path) (f : MemoryFile) : Prop where
  below : root.components <+: f.path
  not_excluded : ∀ c ∈ f.path.drop root.components.length, l.isExcluded c.text = false
  not_generated : l.settings.documentDirectory.text ≠ "" →
    ¬ l.settings.documentDirectory.key.Holds f.location.key

instance (l : Loader) (root : Path) (f : MemoryFile) : Decidable (l.Reaches root f) :=
  decidable_of_iff
    (root.components <+: f.path ∧
      (∀ c ∈ f.path.drop root.components.length, l.isExcluded c.text = false) ∧
      (l.settings.documentDirectory.text ≠ "" →
        ¬ l.settings.documentDirectory.key.Holds f.location.key))
    ⟨fun ⟨below, excluded, generated⟩ => ⟨below, excluded, generated⟩,
      fun h => ⟨h.below, h.not_excluded, h.not_generated⟩⟩

theorem reaches_iff (h : m.Tidy) (hf : f ∈ m.files) (hne : m.below directory.components ≠ []) :
    l.Reaches directory f ↔ f ∈ m.below directory.components ∧ l.passesOver directory f = false := by
  have hgenerates : l.settings.generates f.location.key = false ↔
      (l.settings.documentDirectory.text ≠ "" →
        ¬ l.settings.documentDirectory.key.Holds f.location.key) := by
    rw [← h.isWithin_location_iff hf, Settings.generates, Bool.and_eq_false_iff]
    by_cases hempty : l.settings.documentDirectory.text = "" <;> simp [hempty]
  have hpasses : l.passesOver directory f = false ↔
      (∀ c ∈ f.path.drop directory.components.length, l.isExcluded c.text = false) ∧
        (l.settings.documentDirectory.text ≠ "" →
          ¬ l.settings.documentDirectory.key.Holds f.location.key) := by
    rw [passesOver, Bool.or_eq_false_iff, hgenerates, List.any_eq_false]
    simp
  rw [hpasses]
  constructor
  · rintro ⟨⟨steps, hpath⟩, hexcluded, hgenerated⟩
    refine ⟨mem_below.mpr ⟨hf, ?_⟩, hexcluded, hgenerated⟩
    cases steps with
    | nil =>
      -- a file at the root would be a directory of those below it
      obtain ⟨g, hg⟩ := List.exists_mem_of_ne_nil _ hne
      obtain ⟨hg, c, rest, hgpath⟩ := mem_below.mp hg
      rw [List.append_nil] at hpath
      have hsame := h.apart f hf g hg ⟨c :: rest, by rw [← hpath, hgpath]⟩
      rw [← hpath, hgpath] at hsame
      simpa using congrArg List.length hsame
    | cons c rest => exact ⟨c, rest, hpath.symm⟩
  · rintro ⟨hfound, hexcluded, hgenerated⟩
    obtain ⟨-, c, rest, hpath⟩ := mem_below.mp hfound
    exact ⟨⟨c :: rest, hpath.symm⟩, hexcluded, hgenerated⟩

theorem filter_reaches (h : m.Tidy) (hne : m.below directory.components ≠ []) (kept : MemoryFile → Bool) :
    (m.below directory.components).filter (fun f => !l.passesOver directory f && kept f) =
      m.files.filter fun f => l.Reaches directory f ∧ kept f := by
  unfold MemoryStorage.below
  rw [List.filter_filter]
  refine List.filter_congr fun f hf => ?_
  have hreaches := reaches_iff (l := l) h hf hne
  have hbelow : f ∈ m.below directory.components ↔ (next? directory.components f.path).isSome = true := by
    simp [MemoryStorage.below, hf]
  rw [Bool.eq_iff_iff, decide_eq_true_eq, hreaches, hbelow]
  cases l.passesOver directory f <;> simp [and_comm]

/-- A scan of a directory in a tidy storage comes to an end: going deeper than the storage would change
nothing. From an empty index it indexes exactly the files that it reaches, that are below the size limit and
that are recognised as table files, and counts them. Of the others that it reaches and that are below the
limit it lists the library documents, if those are used. Both are in the order of a walk that takes the
entries of each directory in the order of their names. -/
theorem scan_exact (h : m.Tidy) (settings : Settings) (patterns : List Glob.Pattern) {root : Path}
    (hroot : (m.stat root).toOption.any (·.isDirectory) = true) :
    let l : Loader := ⟨m.toStorage, settings, patterns⟩
    let indexed := m.files.filter fun f => l.Reaches root f ∧ l.takes f.location f.content
    let listed := m.files.filter fun f => l.Reaches root f ∧ l.lists f.location f.content
    ∃ s, l.scan root {} = .ok s ∧
      (∀ depth, m.toStorage.depth ≤ depth → l.visitDirectory depth root { index := {} } = s) ∧
      indexed.Pairwise MemoryFile.Before ∧ s.index.files = indexed.map MemoryFile.record ∧
      s.indexed = indexed.length ∧
      listed.Pairwise MemoryFile.Before ∧ s.documents.map Path.components = listed.map (·.path) := by
  intro l indexed listed
  have hne := below_of_isDirectory hroot
  let s := (m.below root.components).foldl (l.visitFound root) { index := {} }
  have hvisit : ∀ depth, m.toStorage.depth ≤ depth → l.visitDirectory depth root { index := {} } = s := by
    intro depth hdepth
    refine visitDirectory_eq h rfl depth root _ hne fun f hf => ?_
    have hle := length_le_depth m (mem_below.mp hf).1
    omega
  have hscan : l.scan root {} = .ok s := by
    have hstat : l.storage.stat root = .ok ⟨false, true, 0⟩ := h.stat_directory hne
    unfold scan
    rw [hstat]
    exact congrArg Except.ok (hvisit _ (Nat.le_refl _))
  obtain ⟨hfiles, hcount, hdocuments⟩ := foldl_visitFound (l := l) h rfl (fun f hf => hf)
    (h.keys.filter _) { index := {} } fun g hg => nomatch hg
  have hindexed : (m.below root.components).filter (l.takesAt root) = indexed := filter_reaches h hne _
  have hlisted : (m.below root.components).filter (l.listsAt root) = listed := filter_reaches h hne _
  rw [hindexed] at hfiles hcount
  rw [hlisted] at hdocuments
  refine ⟨s, hscan, hvisit, h.pairwise_before.filter _, ?_, ?_, h.pairwise_before.filter _, ?_⟩
  · simpa using hfiles
  · simpa using hcount
  · simpa using hdocuments

/-! ## A project -/

/-- A project with a directory that is excluded, one for generated documents, and one whose name begins with
the name of that. -/
def tree : MemoryStorage :=
  [("/p/sub/b.robot", "*** Keywords ***\nB\n"), ("/p/skip/c.robot", "*** Keywords ***\nC\n"),
    ("/p/gen/d.robot", "*** Keywords ***\nD\n"), ("/p/genre/e.robot", "*** Keywords ***\nE\n"),
    ("/p/library.xml", "<keywordspec name=\"L\"><kw name=\"K\"></kw></keywordspec>"),
    ("/p/a.robot", "*** Keywords ***\nA\n")].foldl
    (fun m (path, text) => m.write ⟨path⟩ (encode text.toList)) ({} : MemoryStorage)

theorem tidy_tree : tree.Tidy where
  ordered := List.foldlRecOn (motive := MemoryStorage.Ordered) _ _ List.Pairwise.nil
    fun _ h file _ => ordered_writeAt h _ _
  path_eq := by decide +kernel
  plain := by decide +kernel
  apart := by decide +kernel
  keys := by decide +kernel

/-- The settings for the project. -/
def treeSettings : Settings := { Settings.standard ⟨⟨"/p/gen"⟩, none⟩ with excludes := ["skip"] }

/-- Of the project only what is neither excluded nor generated is indexed, in the order of a walk. -/
theorem scan_exact_tree :
    let l : Loader := ⟨tree.toStorage, treeSettings, treeSettings.patterns.toOption.getD []⟩
    treeSettings.patterns.toBool = true ∧ tree.Tidy ∧
      (tree.stat ⟨"/p"⟩).toOption.any (·.isDirectory) = true ∧
      ∃ s, l.scan ⟨"/p"⟩ {} = .ok s ∧
        s.index.files.map (·.key.text) = ["/p/a.robot", "/p/genre/e.robot", "/p/sub/b.robot"] ∧
        s.documents.map Path.components = [[.root, .name "p", .name "library.xml"]] := by
  intro l
  have hrun : treeSettings.patterns.toBool = true ∧
      (tree.stat ⟨"/p"⟩).toOption.any (·.isDirectory) = true ∧
      (tree.files.filter fun f => l.Reaches ⟨"/p"⟩ f ∧ l.takes f.location f.content).map
        (·.location.key.text) = ["/p/a.robot", "/p/genre/e.robot", "/p/sub/b.robot"] ∧
      (tree.files.filter fun f => l.Reaches ⟨"/p"⟩ f ∧ l.lists f.location f.content).map (·.path) =
        [[.root, .name "p", .name "library.xml"]] := by
    decide +kernel
  obtain ⟨hpatterns, hroot, hindexed, hlisted⟩ := hrun
  obtain ⟨s, hscan, -, -, hfiles, -, -, hdocuments⟩ :=
    scan_exact tidy_tree treeSettings (treeSettings.patterns.toOption.getD []) hroot
  refine ⟨hpatterns, tidy_tree, hroot, s, hscan, ?_, hdocuments.trans hlisted⟩
  rw [hfiles, List.map_map]
  simpa only [Function.comp_def, MemoryFile.key_record] using hindexed

/-- A table file whose name is not UTF-8. -/
def rawTree : MemoryStorage :=
  ({} : MemoryStorage).writeAt (RawPath.mk (encode "/p/".toList ++ 0xFF :: encode ".robot".toList)).components
    (encode "*** Keywords ***\nA\n".toList)

/-- A table file in a directory whose name is that of the directory for documents but for a capital. -/
def capitalTree : MemoryStorage :=
  ({} : MemoryStorage).write ⟨"/p/Gen/d.robot"⟩ (encode "*** Keywords ***\nD\n".toList)

/-- A table file is passed over if its path is not UTF-8, as nothing is found by the name that is listed. One
that is in the directory for documents only by its key is passed over too. -/
theorem scan_inexact :
    let raw : Loader := ⟨rawTree.toStorage, .standard ⟨⟨""⟩, none⟩, []⟩
    let capital : Loader := ⟨capitalTree.toStorage, .standard ⟨⟨"/p/gen"⟩, none⟩, []⟩
    ((∃ f ∈ rawTree.files, raw.Reaches ⟨"/p"⟩ f ∧ raw.takes f.location f.content = true) ∧
      (raw.scan ⟨"/p"⟩ {}).toOption.map (fun s => (s.indexed, s.index.files.length)) = some (0, 0)) ∧
    (∃ f ∈ capitalTree.files, Path.components ⟨"/p"⟩ <+: f.path ∧
      ¬ Path.components ⟨"/p/gen"⟩ <+: f.path ∧ capital.takes f.location f.content = true) ∧
    (capital.scan ⟨"/p"⟩ {}).toOption.map (fun s => (s.indexed, s.index.files.length)) = some (0, 0) := by
  decide +kernel

end Loader

end KeywordIndex
