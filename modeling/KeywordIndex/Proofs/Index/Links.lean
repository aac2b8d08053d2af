import KeywordIndex.Index.Imports
import KeywordIndex.Library.Install
import KeywordIndex.Proofs.Path.Canonical

namespace KeywordIndex

/-! # What resolving and installing change

Resolving imports writes links and nothing else, and a link depends on the index only through the keys in
it. So the record under a key afterwards is the one before, linked against the index (`file?_resolve`,
`file?_resolveAll`). What is reported as missing are existing files whose keys are not in the index.
Installing libraries changes no table file, but may take one away whose key is the name of a library.
-/

namespace SourceFile

/-- The record without the links of its imports. -/
def unlinked (f : SourceFile) : SourceFile :=
  { f with resources := f.resources.map fun r => { r with resolved := none } }

@[simp] theorem unlinked_isLibrary (f : SourceFile) : f.unlinked.isLibrary = f.isLibrary := rfl

/-- The kind of a record is outside its links. -/
theorem isLibrary_congr {f g : SourceFile} (h : f.unlinked = g.unlinked) :
    f.isLibrary = g.isLibrary := by
  rw [← unlinked_isLibrary f, h, unlinked_isLibrary]

@[simp] theorem unlinked_libraryNames (f : SourceFile) : f.unlinked.libraryNames = f.libraryNames := rfl

/-- A new record of a table file has no links. -/
@[simp] theorem unlinked_ofTable (outline : Outline) (path : Path) :
    (ofTable outline path).unlinked = ofTable outline path := by
  simp [unlinked, ofTable, ofOutline]

/-- Nor has a new record of a library. -/
@[simp] theorem unlinked_ofLibrary (outline : Outline) (name : String) (document source : Option Path) :
    (ofLibrary outline name document source).unlinked = ofLibrary outline name document source := by
  simp [unlinked, ofLibrary, ofOutline]

@[simp] theorem key_ofTable (outline : Outline) (path : Path) : (ofTable outline path).key = path.key :=
  path.key_normalize

@[simp] theorem isLibrary_ofTable (outline : Outline) (path : Path) :
    (ofTable outline path).isLibrary = false := rfl

end SourceFile

namespace Index

/-- The record under a key without its links. -/
def unlinked? (index : Index) (key : Key) : Option SourceFile := (index.file? key).map SourceFile.unlinked

/-- The record with its imports linked against the index. -/
def linked (index : Index) (isFile : Path → Bool) (f : SourceFile) : SourceFile :=
  match f.baseDirectory? with
  | none => f
  | some directory =>
    { f with
      resources := f.resources.map fun r => { r with resolved := index.link? isFile directory r } }

variable {index other : Index} {isFile : Path → Bool}

theorem mem_of_file? {key : Key} {f : SourceFile} (h : index.file? key = some f) :
    f ∈ index.files ∧ f.key = key :=
  ⟨List.mem_of_find?_eq_some h, by simpa using List.find?_some h⟩

theorem link?_congr (h : ∀ key, index.contains key = other.contains key) :
    index.link? isFile = other.link? isFile := by
  funext directory r
  simp only [link?, h]

/-- Linking depends on the keys of the index alone. -/
theorem linked_congr (h : ∀ key, index.contains key = other.contains key) :
    index.linked isFile = other.linked isFile := by
  funext f
  unfold linked
  rw [link?_congr h]

@[simp] theorem unlinked_linked (index : Index) (isFile : Path → Bool) (f : SourceFile) :
    (index.linked isFile f).unlinked = f.unlinked := by
  unfold linked
  split
  · rfl
  · simp [SourceFile.unlinked]

/-- A record that is linked anew keeps none of its old links. -/
@[simp] theorem linked_linked (index other : Index) (isFile : Path → Bool) (f : SourceFile) :
    index.linked isFile (other.linked isFile f) = index.linked isFile f := by
  unfold linked
  cases hbase : f.baseDirectory? with
  | none => simp only [hbase]
  | some directory =>
    -- the base directory does not depend on the links
    have hsame (links : List ResourceImport) :
        ({ f with resources := links } : SourceFile).baseDirectory? = some directory := hbase
    simp only [hsame, List.map_map, Function.comp_def, link?]

/-! ## One record -/

theorem file?_relink (index : Index) (key : Key) (links : List (Option Key)) (k : Key) :
    (index.relink key links).file? k =
      (index.file? k).map fun f =>
        if k = key then
          { f with
            resources := List.zipWith (fun r link => { r with resolved := link }) f.resources links }
        else f := by
  obtain ⟨files, names⟩ := index
  unfold relink file?
  induction files with
  | nil => rfl
  | cons f rest ih =>
    by_cases hk : f.key = k
    · by_cases hkey : f.key = key <;> simp_all
    · by_cases hkey : f.key = key <;> simp_all

/-- The record under a key after the imports of one record were resolved. -/
theorem file?_resolve (index : Index) (isFile : Path → Bool) (key k : Key) :
    (index.resolve isFile key).index.file? k =
      (index.file? k).map fun f => if k = key then index.linked isFile f else f := by
  unfold resolve
  cases hfile : index.file? key with
  | none =>
    by_cases hk : k = key
    · rw [hk, hfile]
      rfl
    · simp [hk]
  | some f =>
    cases hbase : f.baseDirectory? with
    | none =>
      simp only [hbase]
      by_cases hk : k = key
      · simp [hk, hfile, linked, hbase]
      · simp [hk]
    | some directory =>
      simp only [hbase, file?_relink]
      by_cases hk : k = key
      · simp [hk, hfile, linked, hbase, List.zipWith_map_right, List.zipWith_self]
      · simp [hk]

@[simp] theorem contains_resolve (index : Index) (isFile : Path → Bool) (key k : Key) :
    (index.resolve isFile key).index.contains k = index.contains k := by
  simp [contains, file?_resolve]

theorem mem_insertPath {path added : Path} {paths : List Path} (h : path ∈ insertPath added paths) :
    path = added ∨ path ∈ paths := by
  fun_induction insertPath added paths with
  | case1 => simpa using h
  | case2 => exact Or.inr h
  | case3 => simpa using h
  | case4 other rest _ _ ih =>
    rcases List.mem_cons.mp h with rfl | h
    · exact Or.inr List.mem_cons_self
    · exact (ih h).imp_right (List.mem_cons_of_mem _)

theorem mem_foldr_insertPath {path : Path} {added paths : List Path}
    (h : path ∈ added.foldr insertPath paths) : path ∈ added ∨ path ∈ paths := by
  induction added with
  | nil => exact Or.inr h
  | cons first rest ih =>
    rcases mem_insertPath h with rfl | h
    · exact Or.inl List.mem_cons_self
    · exact (ih h).imp_left (List.mem_cons_of_mem _)

/-- What is missing is an existing file whose key is not in the index. -/
theorem of_mem_missing {key : Key} {path : Path} (h : path ∈ (index.resolve isFile key).missing) :
    isFile path = true ∧ index.contains path.key = false := by
  unfold resolve at h
  split at h
  · cases h
  · split at h
    · cases h
    · rcases mem_foldr_insertPath h with h | h
      · obtain ⟨r, -, hr⟩ := List.mem_filterMap.mp h
        unfold missing? resolveImport? at hr
        grind
      · cases h

/-! ## Every record -/

/-- Resolves the imports of some records after those of others. -/
def resolveEach (isFile : Path → Bool) (found : Resolution) (keys : List Key) : Resolution :=
  keys.foldl
    (fun found key =>
      let next := found.index.resolve isFile key
      ⟨next.index, next.missing.foldr insertPath found.missing⟩)
    found

theorem file?_resolveEach (isFile : Path → Bool) (found : Resolution) (keys : List Key) (k : Key) :
    (resolveEach isFile found keys).index.file? k =
      (found.index.file? k).map fun f => if k ∈ keys then found.index.linked isFile f else f := by
  induction keys generalizing found with
  | nil => simp [resolveEach]
  | cons key rest ih =>
    -- links of later records do not depend on those of earlier ones
    have hlinked : (found.index.resolve isFile key).index.linked isFile = found.index.linked isFile :=
      linked_congr fun k => contains_resolve found.index isFile key k
    have hrest := ih ⟨(found.index.resolve isFile key).index,
      (found.index.resolve isFile key).missing.foldr insertPath found.missing⟩
    simp only [file?_resolve, hlinked, Option.map_map] at hrest
    change (resolveEach isFile _ rest).index.file? k = _
    rw [hrest]
    congr 1
    funext f
    by_cases hk : k = key <;> by_cases hmem : k ∈ rest <;> simp [hk, hmem]

theorem of_mem_missing_resolveEach (found : Resolution) {keys : List Key}
    (hfound : ∀ path ∈ found.missing, isFile path = true ∧ found.index.contains path.key = false)
    {path : Path} (h : path ∈ (resolveEach isFile found keys).missing) :
    isFile path = true ∧ found.index.contains path.key = false := by
  induction keys generalizing found with
  | nil => exact hfound path h
  | cons key rest ih =>
    have hrest := ih ⟨(found.index.resolve isFile key).index,
      (found.index.resolve isFile key).missing.foldr insertPath found.missing⟩ ?_ h
    · simpa using hrest
    · intro other hother
      rw [contains_resolve]
      rcases mem_foldr_insertPath hother with hother | hother
      · exact of_mem_missing hother
      · exact hfound other hother

/-- The record under a key after the imports of all records were resolved. -/
theorem file?_resolveAll (index : Index) (isFile : Path → Bool) (k : Key) :
    (index.resolveAll isFile).index.file? k = (index.file? k).map (index.linked isFile) := by
  change (resolveEach isFile ⟨index, []⟩ _).index.file? k = _
  rw [file?_resolveEach]
  cases hfile : index.file? k with
  | none => rfl
  | some f =>
    rw [Option.map_some, Option.map_some]
    split
    · rfl
    · next hnot =>
      -- a record that is passed over has no imports
      obtain ⟨hf, rfl⟩ := mem_of_file? hfile
      have hempty : f.resources = [] := by
        by_contra hne
        exact hnot (List.mem_map_of_mem (List.mem_filter.mpr ⟨hf, by simpa using hne⟩))
      unfold linked
      split
      · rfl
      · rw [hempty, List.map_nil, ← hempty]

theorem of_mem_missing_resolveAll {path : Path} (h : path ∈ (index.resolveAll isFile).missing) :
    isFile path = true ∧ index.contains path.key = false :=
  of_mem_missing_resolveEach ⟨index, []⟩ (by simp) h

/-! ## Libraries -/

theorem file?_of_remove {removed key : Key} {f : SourceFile}
    (h : (index.remove removed).file? key = some f) : index.file? key = some f := by
  rw [file?_remove] at h
  split at h
  · cases h
  · exact h

theorem file?_of_removeLibraries {key : Key} {f : SourceFile}
    (h : index.removeLibraries.file? key = some f) : index.file? key = some f :=
  List.foldlRecOn (motive := fun later : Index => later.file? key = some f → index.file? key = some f)
    _ Index.remove id (fun _ hbefore _ _ h => hbefore (file?_of_remove h)) h

/-- A record that is there after libraries were installed was there before or is that of a library. -/
theorem file?_install_cases {loaded : List LoadedLibrary} {key : Key} {f : SourceFile}
    (h : (index.install loaded).file? key = some f) :
    index.file? key = some f ∨ ∃ library ∈ loaded,
      f = .ofLibrary library.outline library.name (some library.document) library.source := by
  have general : ∀ (loaded : List LoadedLibrary) (index : Index),
      (loaded.foldl addLoaded index).file? key = some f → index.file? key = some f ∨
        ∃ library ∈ loaded,
          f = .ofLibrary library.outline library.name (some library.document) library.source := by
    intro loaded
    induction loaded with
    | nil => exact fun _ h => Or.inl h
    | cons library rest ih =>
      intro index h
      rcases ih _ h with h | ⟨other, hother, h⟩
      · rw [addLoaded, file?_add] at h
        split at h
        · exact Or.inr ⟨library, List.mem_cons_self, (Option.some.inj h).symm⟩
        · exact Or.inl h
      · exact Or.inr ⟨other, List.mem_cons_of_mem _ hother, h⟩
  exact (general _ _ h).imp_left file?_of_removeLibraries

/-- A table file that is there after libraries were installed was there before. -/
theorem file?_of_install {loaded : List LoadedLibrary} {key : Key} {f : SourceFile}
    (h : (index.install loaded).file? key = some f) (hf : f.isLibrary = false) :
    index.file? key = some f := by
  rcases file?_install_cases h with h | ⟨library, -, rfl⟩
  · exact h
  · cases hf

/-- Whether a table file has the key. -/
def hasTable (index : Index) (key : Key) : Bool := (index.file? key).any (!·.isLibrary)

theorem hasTable_eq (index : Index) (key : Key) :
    index.hasTable key = (index.unlinked? key).any (!·.isLibrary) := by
  unfold hasTable unlinked?
  cases index.file? key <;> rfl

theorem hasTable_iff {key : Key} :
    index.hasTable key = true ↔ ∃ f, index.file? key = some f ∧ f.isLibrary = false := by
  simp [hasTable, Option.any_eq_true]

theorem hasTable_of_install {loaded : List LoadedLibrary} {key : Key}
    (h : (index.install loaded).hasTable key = true) : index.hasTable key = true := by
  obtain ⟨f, hfile, hf⟩ := hasTable_iff.mp h
  exact hasTable_iff.mpr ⟨f, file?_of_install hfile hf, hf⟩

end Index

end KeywordIndex
