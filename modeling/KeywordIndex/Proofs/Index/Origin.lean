import KeywordIndex.Proofs.Index.Consistency

namespace KeywordIndex

/-! # Where records come from

A record comes into an index as it was made of a table file or of the documentation of a library, and from
then on at most the links of its imports change. `Recorded` is the invariant; it holds after any changes in
any order (`recorded_after`). So every record has the key of a path, and a table file has a path and is
displayed by the stem of it (`displayName_of_path`).
-/

namespace SourceFile

/-- A record as it is made of an outline. -/
inductive Made : SourceFile → Prop where
  | table (outline : Outline) (path : Path) : Made (.ofTable outline path)
  | library (outline : Outline) (name : String) (document source : Option Path) :
    Made (.ofLibrary outline name document source)

theorem Made.exists_key {f : SourceFile} (h : f.Made) : ∃ p : Path, f.key = p.key := by
  cases h with
  | table outline path => exact ⟨path, key_ofTable outline path⟩
  | library outline name document source => exact ⟨⟨name⟩, rfl⟩

theorem Made.exists_ofTable {f : SourceFile} (h : f.Made) (htable : f.isLibrary = false) :
    ∃ outline path, f = .ofTable outline path := by
  cases h with
  | table outline path => exact ⟨outline, path, rfl⟩
  | library => cases htable

end SourceFile

namespace Index

/-- Every record is, apart from its links, as it was made. -/
def Recorded (index : Index) : Prop := ∀ f ∈ index.files, f.unlinked.Made

variable {index later : Index}

/-! ## Each change keeps the invariant -/

theorem Recorded.add (h : index.Recorded) {f : SourceFile} (hf : f.unlinked.Made) :
    (index.add f).Recorded := by
  intro g hg
  rcases mem_putIn hg with rfl | hg
  · exact hf
  · exact h g hg

theorem Recorded.addTable (h : index.Recorded) (outline : Outline) (path : Path) :
    (index.add (.ofTable outline path)).Recorded := by
  refine h.add ?_
  rw [SourceFile.unlinked_ofTable]
  exact .table outline path

theorem Recorded.addLibrary (h : index.Recorded) (outline : Outline) (name : String)
    (document source : Option Path) : (index.add (.ofLibrary outline name document source)).Recorded := by
  refine h.add ?_
  rw [SourceFile.unlinked_ofLibrary]
  exact .library outline name document source

theorem Recorded.of_subset (h : index.Recorded) (hsub : ∀ f ∈ later.files, f ∈ index.files) :
    later.Recorded :=
  fun f hf => h f (hsub f hf)

theorem Recorded.remove (h : index.Recorded) (key : Key) : (index.remove key).Recorded :=
  h.of_subset fun _ => List.mem_of_mem_filter

theorem Recorded.reset (h : index.Recorded) (directory? : Option Path) :
    (index.reset directory?).Recorded := by
  cases directory? with
  | none => exact List.forall_mem_nil _
  | some directory => exact h.of_subset fun _ => List.mem_of_mem_filter

/-- Where only links have changed, the records are made as before. -/
theorem Recorded.of_unlinked? (h : index.Recorded) (hlater : later.Consistent)
    (hunlinked : ∀ key, later.unlinked? key = index.unlinked? key) : later.Recorded := by
  intro g hg
  have hfound : index.unlinked? g.key = some g.unlinked := by
    rw [← hunlinked, unlinked?, file?_of_mem hlater.keys_nodup hg, Option.map_some]
  obtain ⟨f, hf, hsame⟩ := Option.map_eq_some_iff.mp hfound
  exact hsame ▸ h f (mem_of_file? hf).1

theorem Recorded.resolve (h : index.Recorded) (hindex : index.Consistent) (isFile : Path → Bool)
    (key : Key) : (index.resolve isFile key).index.Recorded := by
  refine h.of_unlinked? (hindex.resolve isFile key) fun k => ?_
  rw [unlinked?, file?_resolve, Option.map_map, unlinked?]
  refine congrArg (Option.map · _) (funext fun f => ?_)
  rw [Function.comp_apply]
  split
  · exact unlinked_linked index isFile f
  · rfl

theorem Recorded.resolveAll (h : index.Recorded) (hindex : index.Consistent) (isFile : Path → Bool) :
    (index.resolveAll isFile).index.Recorded := by
  refine h.of_unlinked? (hindex.resolveAll isFile) fun k => ?_
  rw [unlinked?, file?_resolveAll, Option.map_map, unlinked?]
  exact congrArg (Option.map · _) (funext (unlinked_linked index isFile))

theorem Recorded.install (h : index.Recorded) (loaded : List LoadedLibrary) :
    (index.install loaded).Recorded := by
  have hremoved : index.removeLibraries.Recorded :=
    List.foldlRecOn (motive := Recorded) _ Index.remove h fun _ h key _ => h.remove key
  exact List.foldlRecOn (motive := Recorded) loaded addLoaded hremoved
    fun _ h library _ => h.addLibrary library.outline library.name (some library.document) library.source

theorem Recorded.apply (h : index.Recorded) (hindex : index.Consistent) (change : Change) :
    (index.apply change).Recorded := by
  cases change with
  | addTable outline path => exact h.addTable outline path
  | addLibrary outline name document source => exact h.addLibrary outline name document source
  | remove key => exact h.remove key
  | reset directory? => exact h.reset directory?
  | rebuild => exact h
  | resolve isFile key => exact h.resolve hindex isFile key
  | resolveAll isFile => exact h.resolveAll hindex isFile
  | install loaded => exact h.install loaded

/-- After any changes, every record is as it was made apart from its links. -/
theorem recorded_after (changes : List Change) : (after changes).Recorded :=
  -- that links leave no record behind rests on the keys being unique
  (List.foldlRecOn (motive := fun index => index.Consistent ∧ index.Recorded) changes Index.apply
    ⟨consistent_empty, List.forall_mem_nil _⟩
    fun _ h change _ => ⟨h.1.apply change, h.2.apply h.1 change⟩).2

/-! ## What the origin of a record tells -/

section Origin

variable {changes : List Change} {f : SourceFile}

/-- A record that is no library's was made of a table file. -/
theorem exists_ofTable (hf : f ∈ (after changes).files) (htable : f.isLibrary = false) :
    ∃ outline path, f.unlinked = .ofTable outline path :=
  (recorded_after changes f hf).exists_ofTable htable

/-- The record of a table file is displayed by the stem of its path. -/
theorem displayName_of_path (hf : f ∈ (after changes).files) (htable : f.isLibrary = false)
    {path : Path} (hpath : f.path = some path) : f.displayName = path.stem := by
  obtain ⟨outline, table, hmade⟩ := exists_ofTable hf htable
  have hstored : f.path = some table.normalize := congrArg SourceFile.path hmade
  have hname : f.displayName = table.normalize.stem := congrArg SourceFile.displayName hmade
  rw [hpath] at hstored
  rw [hname, Option.some.inj hstored]

theorem exists_path_of_table (hf : f ∈ (after changes).files) (htable : f.isLibrary = false) :
    ∃ path, f.path = some path := by
  obtain ⟨outline, table, hmade⟩ := exists_ofTable hf htable
  exact ⟨table.normalize, congrArg SourceFile.path hmade⟩

end Origin

end Index

end KeywordIndex
