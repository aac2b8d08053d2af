import KeywordIndex.Proofs.Index.Missing
import KeywordIndex.Proofs.Project.Consistency
import KeywordIndex.Storage.Memory

namespace KeywordIndex

open Text

/-! # Two passes of import resolution

Between the passes, the missing files that are table files are loaded, each of which an import of a record
denotes. So the links that come out are exact, the records that were there differ in nothing else, and what
was added was imported (`resolution_exact`). The second pass loads nothing: a file that came in may import
others that are still missing, and only then does a further call change anything (`settled_iff`).
-/

namespace Loader

variable {l : Loader} {index : Index} {missing : List Path}

/-! ## Loading what is missing -/

theorem loadNext_of_finds {path : Path} {f : SourceFile} (h : l.Finds path f) (current : Index × Nat) :
    l.loadNext current path = (current.1.add f, current.2 + 1) := by
  unfold loadNext
  rw [loadFile_of_finds h]

/-- What is counted are the missing files that are table files. -/
theorem count_foldl_loadNext [∀ path, Decidable (∃ f, l.Finds path f)] (paths : List Path)
    (current : Index × Nat) :
    (paths.foldl l.loadNext current).2 =
      current.2 + paths.countP fun path => ∃ f, l.Finds path f := by
  induction paths generalizing current with
  | nil => rfl
  | cons path rest ih =>
    rw [List.foldl_cons, ih, List.countP_cons]
    rcases l.loadNext_cases current path with ⟨f, hf, hnext⟩ | hnext
    · rw [hnext, if_pos (by simpa using ⟨f, hf⟩)]
      omega
    · -- a file that is left out cannot be one that is found
      have hno : ¬ ∃ f, l.Finds path f := by
        rintro ⟨f, hf⟩
        have hcount := congrArg Prod.snd ((loadNext_of_finds hf current).symm.trans hnext)
        exact Nat.succ_ne_self _ hcount
      rw [hnext, if_neg (by simpa using hno)]
      omega

theorem count_loadMissing_eq_zero_iff :
    (l.loadMissing missing index).2 = 0 ↔ ∀ path ∈ missing, ∀ f, ¬ l.Finds path f := by
  classical
  rw [loadMissing_eq, count_foldl_loadNext, Nat.zero_add, List.countP_eq_zero]
  simp

/-- A record that came in by loading is that of a missing file. -/
theorem exists_of_file?_loadMissing {key : Key} {f : SourceFile} (hno : index.contains key = false)
    (h : (l.loadMissing missing index).1.file? key = some f) :
    ∃ path ∈ missing, path.key = key ∧ l.Finds path f := by
  rw [loadMissing_eq] at h
  refine List.foldlRecOn
    (motive := fun current : Index × Nat => ∀ f, current.1.file? key = some f →
      ∃ path ∈ missing, path.key = key ∧ l.Finds path f) missing _ ?_ ?_ f h
  · intro f hfile
    simp [Index.contains, hfile] at hno
  · intro current hcurrent path hpath f hfile
    rcases l.loadNext_cases current path with ⟨g, hg, hnext⟩ | hnext
    · rw [hnext, Index.file?_add, hg.key_eq] at hfile
      split at hfile
      · next hkey =>
        obtain rfl := Option.some.inj hfile
        exact ⟨path, hpath, hkey, hg⟩
      · exact hcurrent f hfile
    · rw [hnext] at hfile
      exact hcurrent f hfile

/-- Loading takes no key away, and brings in the keys of all table files that were missing. -/
theorem contains_loadMissing {key : Key} (h : index.contains key = true ∨
    ∃ path ∈ missing, path.key = key ∧ ∃ f, l.Finds path f) :
    (l.loadMissing missing index).1.contains key = true := by
  have general : ∀ (paths : List Path) (current : Index × Nat),
      (current.1.contains key = true ∨ ∃ path ∈ paths, path.key = key ∧ ∃ f, l.Finds path f) →
        (paths.foldl l.loadNext current).1.contains key = true := by
    intro paths
    induction paths with
    | nil => simp
    | cons path rest ih =>
      intro current h
      rw [List.foldl_cons]
      refine ih _ ?_
      rcases h with h | ⟨other, hother, hkey, f, hf⟩
      · left
        rcases l.loadNext_cases current path with ⟨g, -, hnext⟩ | hnext
        · rw [hnext, Index.contains, Index.file?_add]
          split
          · rfl
          · exact h
        · rwa [hnext]
      · rcases List.mem_cons.mp hother with rfl | hother
        · left
          rw [loadNext_of_finds hf, Index.contains, Index.file?_add, hf.key_eq, if_pos hkey]
          rfl
        · exact Or.inr ⟨other, hother, hkey, f, hf⟩
  rw [loadMissing_eq]
  exact general missing (index, 0) h

/-! ## One call -/

/-- What is loaded between the passes. -/
def between (l : Loader) (index : Index) : Index × Nat :=
  l.loadMissing (index.resolveAll l.storage.isFile).missing (index.resolveAll l.storage.isFile).index

theorem resolveImports_eq (l : Loader) (index : Index) : l.resolveImports index =
    (if (l.between index).2 = 0 then (l.between index).1
      else ((l.between index).1.resolveAll l.storage.isFile).index, (l.between index).2) := rfl

theorem unlinked?_resolveImports_eq (l : Loader) (index : Index) (key : Key) :
    (l.resolveImports index).1.unlinked? key = (l.between index).1.unlinked? key := by
  rw [resolveImports_eq]
  simp only
  split
  · rfl
  · rw [Index.unlinked?, Index.file?_resolveAll, Option.map_map, Index.unlinked?]
    congr 1
    funext f
    exact Index.unlinked_linked _ _ _

theorem contains_eq_isSome_unlinked? (index : Index) (key : Key) :
    index.contains key = (index.unlinked? key).isSome := by
  simp [Index.contains, Index.unlinked?]

theorem contains_resolveImports (l : Loader) (index : Index) (key : Key) :
    (l.resolveImports index).1.contains key = (l.between index).1.contains key := by
  rw [contains_eq_isSome_unlinked?, unlinked?_resolveImports_eq, ← contains_eq_isSome_unlinked?]

/-- What was loaded between the passes is of a file that a record imported. -/
theorem exists_imports_of_added (h : index.Consistent) {g : SourceFile}
    (hg : g ∈ (l.resolveImports index).1.files) (hnew : index.contains g.key = false) :
    ∃ path, (∃ f ∈ index.files, f.Imports l.storage.isFile path) ∧ path.key = g.key ∧
      l.Finds path g.unlinked := by
  have hfile := Index.file?_of_mem (consistent_resolveImports (l := l) h).keys_nodup hg
  have hloaded := l.unlinked?_resolveImports_eq index g.key
  rw [Index.unlinked?, hfile, Option.map_some, Index.unlinked?, eq_comm,
    Option.map_eq_some_iff] at hloaded
  obtain ⟨found, hfound, hsame⟩ := hloaded
  have hno : (index.resolveAll l.storage.isFile).index.contains g.key = false := by
    rw [(links_resolveAll l.storage.isFile).contains_pass]
    exact hnew
  obtain ⟨path, hpath, hkey, hfinds⟩ := exists_of_file?_loadMissing hno hfound
  refine ⟨path, ((Index.mem_missing_resolveAll_iff h).mp hpath).1, hkey, ?_⟩
  rwa [← hsame, hfinds.unlinked]

/-- A record that was there is still there, links aside. -/
theorem exists_of_kept (h : index.Consistent) {f : SourceFile} (hf : f ∈ index.files) :
    ∃ g, (l.resolveImports index).1.file? f.key = some g ∧ g.unlinked = f.unlinked := by
  have hfile := Index.file?_of_mem h.keys_nodup hf
  obtain ⟨f?, hfills, hlater⟩ := l.unlinked?_resolveImports index f.key
  rw [hfills.eq_of_contains (by rw [Index.contains, hfile]; rfl), hfile, Index.unlinked?] at hlater
  exact Option.map_eq_some_iff.mp hlater

/-- The records that come out are linked against the index that comes out. -/
theorem linked_resolveImports (h : index.Consistent) {f : SourceFile}
    (hf : f ∈ (l.resolveImports index).1.files) :
    (l.resolveImports index).1.linked l.storage.isFile f = f := by
  have hfile := Index.file?_of_mem (consistent_resolveImports (l := l) h).keys_nodup hf
  obtain ⟨f?, -, hlinked⟩ := l.file?_resolveImports index f.key
  rw [hfile, eq_comm, Option.map_eq_some_iff] at hlinked
  obtain ⟨g, -, rfl⟩ := hlinked
  exact Index.linked_linked _ _ _ _

/-- After imports were resolved in two passes, an import is linked to a key if and only if it denotes an
existing file with that key and the key is in the index. Every record that was there still is, and differs
at most in the links of its imports. Every other one is of a table file that was read, and that a record
which was there imports. -/
theorem resolution_exact (h : index.Consistent) (l : Loader) :
    let later := (l.resolveImports index).1
    (∀ f ∈ later.files, ∀ directory, f.baseDirectory? = some directory → ∀ r ∈ f.resources, ∀ key,
      r.resolved = some key ↔ ∃ target,
        resolveImport? l.storage.isFile directory r.declared = some target ∧ target.key = key ∧
          later.contains key = true) ∧
    (∀ f ∈ index.files, ∃ g ∈ later.files, g.key = f.key ∧ g.unlinked = f.unlinked) ∧
    ∀ g ∈ later.files, index.contains g.key = false → g.isLibrary = false ∧
      ∃ path, (∃ f ∈ index.files, f.Imports l.storage.isFile path) ∧ path.key = g.key ∧
        l.Finds path g.unlinked := by
  intro later
  refine ⟨fun f hf directory hdirectory r hr key => ?_, fun f hf => ?_, fun g hg hnew => ?_⟩
  · have hlinked := linked_resolveImports h hf
    rw [← hlinked] at hr
    simp only [Index.linked, hdirectory, List.mem_map] at hr
    obtain ⟨declared, -, rfl⟩ := hr
    simp only [Index.link?]
    grind
  · obtain ⟨g, hfile, hsame⟩ := exists_of_kept (l := l) h hf
    obtain ⟨hg, hkey⟩ := Index.mem_of_file? hfile
    exact ⟨g, hg, hkey, hsame⟩
  · obtain ⟨path, himported, hkey, hfinds⟩ := exists_imports_of_added h hg hnew
    exact ⟨hfinds.isLibrary_eq, path, himported, hkey, hfinds⟩

/-- A file is indexed. It imports a second one, which is not and which imports a third one. -/
def chained : Loader where
  storage :=
    let second := ({} : MemoryStorage).write ⟨"/q/m.robot"⟩
      (encode "*** Settings ***\nResource    ../r/z.robot\n".toList)
    (second.write ⟨"/r/z.robot"⟩ (encode "*** Keywords ***\nZ\n".toList)).toStorage
  settings := .standard ⟨⟨"/tmp/robot-lib-cache"⟩, none⟩
  patterns := []

/-- The index with the first file. -/
def outset : Index := .after [.addTable { resources := ["../q/m.robot"] } ⟨"/p/a.robot"⟩]

theorem resolution_exact_chained :
    let later := (chained.resolveImports outset).1
    (∃ f ∈ later.files, ∃ r ∈ f.resources, r.resolved = some ⟨"/q/m.robot"⟩) ∧
    (∃ g ∈ later.files, g.key = ⟨"/p/a.robot"⟩) ∧
    ∃ g ∈ later.files, g.isLibrary = false ∧ ∃ path,
      (∃ f ∈ outset.files, f.Imports chained.storage.isFile path) ∧ path.key = g.key := by
  intro later
  have hconsistent : outset.Consistent := Index.consistent_after _
  obtain ⟨hlinks, hkept, hadded⟩ := resolution_exact hconsistent chained
  have himport : ∃ f ∈ later.files, f.baseDirectory? = some ⟨"/p"⟩ ∧ ∃ r ∈ f.resources,
      resolveImport? chained.storage.isFile ⟨"/p"⟩ r.declared = some ⟨"/q/m.robot"⟩ := by decide +kernel
  have hindexed : (Path.mk "/q/m.robot").key = ⟨"/q/m.robot"⟩ ∧ later.contains ⟨"/q/m.robot"⟩ = true := by
    decide +kernel
  have hbefore : ∃ f ∈ outset.files, f.key = ⟨"/p/a.robot"⟩ := by decide +kernel
  have hnew : ∃ g ∈ later.files, outset.contains g.key = false := by decide +kernel
  obtain ⟨f, hf, hdirectory, r, hr, htarget⟩ := himport
  obtain ⟨before, hmem, hkey⟩ := hbefore
  obtain ⟨kept, hkeptmem, hkeptkey, -⟩ := hkept before hmem
  obtain ⟨g, hg, hno⟩ := hnew
  obtain ⟨hlibrary, path, himported, hpath, -⟩ := hadded g hg hno
  exact ⟨⟨f, hf, r, hr, (hlinks f hf _ hdirectory r hr _).mpr ⟨_, htarget, hindexed⟩⟩,
    ⟨kept, hkeptmem, hkeptkey.trans hkey⟩, g, hg, hlibrary, path, himported, hpath⟩

/-! ## A second call -/

/-- A call changes nothing if links are up to date and no missing file is a table file. -/
theorem resolveImports_eq_self_iff (h : index.Consistent)
    (hlinked : ∀ f ∈ index.files, index.linked l.storage.isFile f = f) :
    l.resolveImports index = (index, 0) ↔
      ∀ path ∈ (index.resolveAll l.storage.isFile).missing, ∀ f, ¬ l.Finds path f := by
  have hcount : (l.between index).2 = 0 ↔
      ∀ path ∈ (index.resolveAll l.storage.isFile).missing, ∀ f, ¬ l.Finds path f :=
    count_loadMissing_eq_zero_iff
  rw [← hcount]
  constructor
  · exact fun hsame => congrArg Prod.snd hsame
  · intro hnone
    have hbetween : (l.between index).1 = index :=
      (loadMissing_of_count hnone).trans (Index.resolveAll_of_linked h hlinked)
    rw [resolveImports_eq, hnone, if_pos rfl, hbetween]

/-- A second call directly after a first one counts nothing and leaves the index as it is, if and only if no
file that came in with the first call imports a table file that is not indexed. Files that were there before
had theirs loaded by the first call. -/
theorem settled_iff (h : index.Consistent) (l : Loader) :
    let first := (l.resolveImports index).1
    l.resolveImports first = (first, 0) ↔
      ∀ f ∈ first.files, index.contains f.key = false → ∀ path, f.Imports l.storage.isFile path →
        first.contains path.key = false → ∀ g, ¬ l.Finds path g := by
  intro first
  have hfirst : first.Consistent := consistent_resolveImports h
  rw [resolveImports_eq_self_iff hfirst fun f hf => linked_resolveImports h hf]
  simp only [Index.mem_missing_resolveAll_iff hfirst]
  constructor
  · exact fun hall f hf _ path himports hno => hall path ⟨⟨f, hf, himports⟩, hno⟩
  · rintro hnew path ⟨⟨f, hf, himports⟩, hno⟩ g hg
    cases hold : index.contains f.key with
    | false => exact hnew f hf hold path himports hno g hg
    | true =>
      -- the first call has loaded what a record imports that was there before
      obtain ⟨before, hbefore⟩ := Option.isSome_iff_exists.mp hold
      obtain ⟨hmem, hkey⟩ := Index.mem_of_file? hbefore
      obtain ⟨kept, hkept, hsame⟩ := exists_of_kept (l := l) h hmem
      rw [hkey, Index.file?_of_mem hfirst.keys_nodup hf] at hkept
      obtain rfl := Option.some.inj hkept
      have hcontains : first.contains path.key = (l.between index).1.contains path.key :=
        l.contains_resolveImports index path.key
      rw [hcontains, ← Bool.not_eq_true] at hno
      refine hno (contains_loadMissing ?_)
      rw [(links_resolveAll l.storage.isFile).contains_pass]
      cases hindexed : index.contains path.key with
      | true => exact Or.inl rfl
      | false =>
        have himported := (SourceFile.imports_congr hsame).mp himports
        exact Or.inr ⟨path, (Index.mem_missing_resolveAll_iff h).mpr ⟨⟨before, hmem, himported⟩, hindexed⟩,
          rfl, g, hg⟩

/-- The second file was loaded by the first call, and the third one is by the second. -/
theorem chained_unsettled :
    let first := (chained.resolveImports outset).1
    let second := (chained.resolveImports first).1
    first.keys = [⟨"/p/a.robot"⟩, ⟨"/q/m.robot"⟩] ∧ (chained.resolveImports first).2 = 1 ∧
      second.keys = [⟨"/p/a.robot"⟩, ⟨"/q/m.robot"⟩, ⟨"/r/z.robot"⟩] := by
  decide +kernel

/-- The second file imports the first one. -/
def crossed : Loader where
  storage := (({} : MemoryStorage).write ⟨"/q/m.robot"⟩
    (encode "*** Settings ***\nResource    ../p/a.robot\n".toList)).toStorage
  settings := .standard ⟨⟨"/tmp/robot-lib-cache"⟩, none⟩
  patterns := []

theorem settled_crossed :
    let first := (crossed.resolveImports outset).1
    first.keys = [⟨"/p/a.robot"⟩, ⟨"/q/m.robot"⟩] ∧ crossed.resolveImports first = (first, 0) := by
  intro first
  have hkeys : first.keys = [⟨"/p/a.robot"⟩, ⟨"/q/m.robot"⟩] := by decide +kernel
  have hindexed : ∀ f ∈ first.files, ∀ directory ∈ f.baseDirectory?, ∀ r ∈ f.resources,
      ∀ path ∈ resolveImport? crossed.storage.isFile directory r.declared,
        first.contains path.key = true := by decide +kernel
  refine ⟨hkeys, (settled_iff (Index.consistent_after _) crossed).mpr ?_⟩
  intro f hf _ path ⟨directory, hdirectory, r, hr, htarget⟩ hno
  have hyes := hindexed f hf directory hdirectory r hr path htarget
  exact absurd (hno.symm.trans hyes) (by decide)

end Loader

end KeywordIndex
