import KeywordIndex.Proofs.Index.Consistency
import KeywordIndex.Proofs.Path.Joining

namespace KeywordIndex

/-! # Which files are found missing

The imports of a record denote existing files (`SourceFile.Imports`). A pass over all records finds missing
exactly those of them whose keys are not in the index (`mem_missing_resolveAll_iff`); that a file is missed
once only, whatever its spellings, loses none, because a target is written in one way. A pass over an index
whose links are up to date changes nothing (`resolveAll_of_linked`).
-/

/-- The record imports the existing file with the path. -/
def SourceFile.Imports (f : SourceFile) (isFile : Path → Bool) (path : Path) : Prop :=
  ∃ directory, f.baseDirectory? = some directory ∧
    ∃ r ∈ f.resources, resolveImport? isFile directory r.declared = some path

variable {isFile : Path → Bool} {path : Path}

/-- What is imported is written in its normal form. -/
theorem normalize_of_resolveImport? {directory : Path} {declared : String}
    (h : resolveImport? isFile directory declared = some path) : path.normalize = path := by
  unfold resolveImport? importTarget at h
  grind [Path.normalize_normalize]

theorem SourceFile.Imports.normalize_eq {f : SourceFile} (h : f.Imports isFile path) :
    path.normalize = path := by
  obtain ⟨_, _, _, _, hpath⟩ := h
  exact normalize_of_resolveImport? hpath

/-- What is imported does not depend on the links. -/
theorem SourceFile.imports_congr {f g : SourceFile} (h : f.unlinked = g.unlinked) :
    f.Imports isFile path ↔ g.Imports isFile path := by
  have hunlinked : ∀ f : SourceFile, f.Imports isFile path ↔ f.unlinked.Imports isFile path := by
    intro f
    simp only [Imports, unlinked, List.mem_map, exists_exists_and_eq_and]
    rfl
  rw [hunlinked f, h, ← hunlinked g]

/-- A path in its normal form is put into a list, also if the list has it. -/
theorem mem_insertPath_iff {added : Path} {paths : List Path}
    (hpaths : ∀ p ∈ added :: paths, p.normalize = p) :
    path ∈ insertPath added paths ↔ path = added ∨ path ∈ paths := by
  fun_induction insertPath added paths with
  | case1 => simp
  | case2 other rest hsame =>
    have hadded : added = other := by
      have hnormal := hpaths added (by simp)
      have hother := hpaths other (by simp)
      rw [← hnormal, ← hother] at hsame ⊢
      exact Path.normalize_eq_of_sameAs hsame
    simp [hadded]
  | case3 => simp
  | case4 other rest _ _ ih =>
    have hrest := ih fun p hp =>
      hpaths p (List.cons_subset_cons added (List.subset_cons_self other rest) hp)
    rw [List.mem_cons, hrest, List.mem_cons, or_left_comm]

theorem mem_foldr_insertPath_iff {added paths : List Path} (hadded : ∀ p ∈ added, p.normalize = p)
    (hpaths : ∀ p ∈ paths, p.normalize = p) :
    path ∈ added.foldr insertPath paths ↔ path ∈ added ∨ path ∈ paths := by
  induction added generalizing path with
  | nil => simp
  | cons first rest ih =>
    have hrest := fun other => @ih other fun p hp => hadded p (List.mem_cons_of_mem _ hp)
    rw [List.foldr_cons, mem_insertPath_iff, hrest, List.mem_cons, or_assoc]
    intro p hp
    rcases List.mem_cons.mp hp with rfl | hp
    · exact hadded p List.mem_cons_self
    · rcases (hrest p).mp hp with hp | hp
      · exact hadded p (List.mem_cons_of_mem _ hp)
      · exact hpaths p hp

namespace Index

variable {index : Index}

/-- The targets of a record that are missing are those of its imports whose keys are not in the index. -/
theorem mem_missing_iff {key : Key} : path ∈ (index.resolve isFile key).missing ↔
    ∃ f, index.file? key = some f ∧ f.Imports isFile path ∧ index.contains path.key = false := by
  unfold resolve
  cases hfile : index.file? key with
  | none => simp
  | some f =>
    cases hdirectory : f.baseDirectory? with
    | none => simp [hdirectory, SourceFile.Imports]
    | some directory =>
      have hmissing : ∀ p, p ∈ f.resources.filterMap (index.missing? isFile directory) ↔
          f.Imports isFile p ∧ index.contains p.key = false := by
        intro p
        simp only [SourceFile.Imports, hdirectory, Option.some.injEq, exists_eq_left', List.mem_filterMap,
          missing?]
        grind
      simp only [hdirectory]
      rw [mem_foldr_insertPath_iff (fun p hp => ((hmissing p).mp hp).1.normalize_eq) (by simp), hmissing]
      simp

theorem mem_missing_resolveEach_iff (found : Resolution) (keys : List Key)
    (hfound : ∀ p ∈ found.missing, p.normalize = p) :
    path ∈ (resolveEach isFile found keys).missing ↔ path ∈ found.missing ∨
      ∃ key ∈ keys, ∃ f, found.index.file? key = some f ∧ f.Imports isFile path ∧
        found.index.contains path.key = false := by
  induction keys generalizing found with
  | nil => simp [resolveEach]
  | cons key rest ih =>
    have hnext : ∀ p ∈ (found.index.resolve isFile key).missing, p.normalize = p := by
      intro p hp
      obtain ⟨f, -, himports, -⟩ := mem_missing_iff.mp hp
      exact himports.normalize_eq
    have hput : ∀ p, p ∈ (found.index.resolve isFile key).missing.foldr insertPath found.missing ↔
        p ∈ (found.index.resolve isFile key).missing ∨ p ∈ found.missing :=
      fun p => mem_foldr_insertPath_iff hnext hfound
    have hrest := ih ⟨(found.index.resolve isFile key).index,
      (found.index.resolve isFile key).missing.foldr insertPath found.missing⟩
      fun p hp => ((hput p).mp hp).elim (hnext p) (hfound p)
    -- linking does not change what other records import
    have hkept : ∀ other, (∃ f, (found.index.resolve isFile key).index.file? other = some f ∧
        f.Imports isFile path ∧ found.index.contains path.key = false) ↔
        ∃ f, found.index.file? other = some f ∧ f.Imports isFile path ∧
          found.index.contains path.key = false := by
      intro other
      simp only [file?_resolve, Option.map_eq_some_iff, exists_exists_and_eq_and]
      refine exists_congr fun f => and_congr_right fun _ => and_congr_left fun _ => ?_
      split
      · exact SourceFile.imports_congr (unlinked_linked _ _ _)
      · rfl
    simp only [contains_resolve] at hrest
    change path ∈ (resolveEach isFile _ rest).missing ↔ _
    rw [hrest, hput, mem_missing_iff]
    simp only [hkept, List.exists_mem_cons_iff]
    rw [or_assoc, or_left_comm]

/-- What a pass over all records finds missing: each existing file that a record imports and whose key is
not in the index. -/
theorem mem_missing_resolveAll_iff (h : index.Consistent) :
    path ∈ (index.resolveAll isFile).missing ↔
      (∃ f ∈ index.files, f.Imports isFile path) ∧ index.contains path.key = false := by
  change path ∈ (resolveEach isFile ⟨index, []⟩ _).missing ↔ _
  rw [mem_missing_resolveEach_iff _ _ (by simp)]
  simp only [List.not_mem_nil, false_or, List.mem_map, List.mem_filter]
  constructor
  · rintro ⟨key, -, f, hfile, himports, hno⟩
    exact ⟨⟨f, (mem_of_file? hfile).1, himports⟩, hno⟩
  · rintro ⟨⟨f, hf, himports⟩, hno⟩
    refine ⟨f.key, ⟨f, ⟨hf, ?_⟩, rfl⟩, f, file?_of_mem h.keys_nodup hf, himports, hno⟩
    obtain ⟨_, _, r, hr, -⟩ := himports
    simpa using List.ne_nil_of_mem hr

/-! ## Links that are up to date -/

theorem relink_eq_self {key : Key} {links : List (Option Key)}
    (h : ∀ f ∈ index.files, f.key = key → f.resources.map (·.resolved) = links) :
    index.relink key links = index := by
  obtain ⟨files, names⟩ := index
  unfold relink
  simp only [mk.injEq, and_true]
  conv_rhs => rw [← List.map_id files]
  refine List.map_congr_left fun f hf => ?_
  split
  · next hkey =>
    rw [← h f hf hkey]
    simp [List.zipWith_map_right, List.zipWith_self]
  · rfl

/-- Linking a record anew changes nothing if its links are up to date. -/
theorem resolve_of_linked (h : index.Consistent)
    (hlinked : ∀ f ∈ index.files, index.linked isFile f = f) (key : Key) :
    (index.resolve isFile key).index = index := by
  unfold resolve
  cases hfile : index.file? key with
  | none => rfl
  | some f =>
    cases hdirectory : f.baseDirectory? with
    | none => simp only [hdirectory]
    | some directory =>
      simp only [hdirectory]
      obtain ⟨hf, rfl⟩ := mem_of_file? hfile
      refine relink_eq_self fun g hg hkey => ?_
      obtain rfl := h.eq_of_key_eq hg hf hkey
      have hsame := congrArg (fun f => f.resources.map (·.resolved)) (hlinked g hg)
      simp only [linked, hdirectory, List.map_map] at hsame
      exact hsame.symm

theorem resolveAll_of_linked (h : index.Consistent)
    (hlinked : ∀ f ∈ index.files, index.linked isFile f = f) :
    (index.resolveAll isFile).index = index :=
  List.foldlRecOn (motive := fun found : Resolution => found.index = index) _ _ rfl
    fun found hfound key _ => by
      simp only [hfound]
      exact resolve_of_linked h hlinked key

end Index

end KeywordIndex
