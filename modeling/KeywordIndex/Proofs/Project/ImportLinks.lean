import KeywordIndex.Proofs.Project.Course
import KeywordIndex.Storage.Memory

namespace KeywordIndex

/-! # How far links are complete

Imports are not resolved whenever the index grows. A reload and the first update of a file resolve the
imports of all files, a later update those of its own file alone, and a file that such an update loads
keeps its imports unresolved. `Ledger` keeps account of the keys that were in the index when the imports
of each file were last resolved. The links of a file are exactly those that these keys give
(`links_as_last_seen`): complete as of then, and blind to what was indexed since.
-/

/-- In every table file, an import of an existing file is linked if the key of that file is among those
that the table file saw, and is not linked otherwise. -/
def Index.LinkedAsOf (index : Index) (isFile : Path → Bool) (seen : Key → List Key) : Prop :=
  ∀ key f, index.file? key = some f → f.isLibrary = false →
    ∀ directory, f.baseDirectory? = some directory →
      ∀ r ∈ f.resources, ∀ target, resolveImport? isFile directory r.declared = some target →
        r.resolved = if target.key ∈ seen key then some target.key else none

/-- A session, and for each file the keys in the index when its imports were last resolved. -/
structure Ledger where
  session : Session
  seen : Key → List Key := fun _ => []

/-- What files have seen after an update: the first one of a file resolves all imports, and a later one
those of the file. A file that was not there before the latter has seen nothing. -/
def seenAfter (before after : Index) (updated : Key) (seen : Key → List Key) (key : Key) : List Key :=
  if (before.file? updated).isNone || key = updated then after.keys
  else if before.contains key then seen key
  else []

namespace Ledger

/-- The ledger after a move. The imports of the files of a reload were all resolved on its own index. -/
def next (l : Ledger) (storage : Storage) (move : Move) : Ledger where
  session := l.session.next storage move
  seen :=
    match move with
    | .call c =>
      match l.session.workspace.written? storage c with
      | some (path, content) =>
        if l.session.workspace.accepts path content then
          seenAfter l.session.workspace.index (l.session.next storage move).workspace.index path.key
            l.seen
        else l.seen
      | none => l.seen
    | .answer _ =>
      match l.session.waiting with
      | some ⟨_, .reload staging _⟩ => fun _ => staging.keys
      | _ => l.seen

/-- No call is made while the generator runs. -/
def Allows (l : Ledger) : Move → Prop
  | .call _ => l.session.waiting = none
  | .answer _ => l.session.waiting ≠ none

/-- What a new workspace comes to, on files that do not change. -/
inductive Reachable (storage : Storage) : Ledger → Prop where
  | start {settings : Settings} {w : Workspace} (h : Workspace.ofSettings settings = .ok w) :
    Reachable storage { session := { workspace := w } }
  | next {l : Ledger} {move : Move} (h : Reachable storage l) (hmove : l.Allows move) :
    Reachable storage (l.next storage move)

end Ledger

/-! ## Links of an index -/

namespace Index

variable {index later : Index} {isFile : Path → Bool} {seen : Key → List Key}

theorem mem_keys_iff {key : Key} : key ∈ index.keys ↔ index.contains key = true := by
  simp [keys, contains, file?, List.find?_isSome]

@[simp] theorem baseDirectory?_linked (index : Index) (isFile : Path → Bool) (f : SourceFile) :
    (index.linked isFile f).baseDirectory? = f.baseDirectory? := by
  unfold linked
  split <;> rfl

/-- Linking a record against an index gives the links of the keys in it. -/
theorem resolved_of_linked {f : SourceFile} {directory : Path}
    (hdirectory : f.baseDirectory? = some directory) {r : ResourceImport}
    (hr : r ∈ (index.linked isFile f).resources) {target : Path}
    (htarget : resolveImport? isFile directory r.declared = some target) :
    r.resolved = if target.key ∈ index.keys then some target.key else none := by
  simp only [linked, hdirectory, List.mem_map] at hr
  obtain ⟨declared, -, rfl⟩ := hr
  simp only [link?, htarget, mem_keys_iff]

theorem linkedAsOf_of_linked
    (h : ∀ key f, index.file? key = some f → ∃ g, f = index.linked isFile g) :
    index.LinkedAsOf isFile fun _ => index.keys := by
  intro key f hfile _ directory hdirectory r hr target htarget
  obtain ⟨g, rfl⟩ := h key f hfile
  rw [baseDirectory?_linked] at hdirectory
  exact resolved_of_linked hdirectory hr htarget

/-- Taking records away changes no links. -/
theorem LinkedAsOf.of_subset (h : index.LinkedAsOf isFile seen)
    (hlater : ∀ key f, later.file? key = some f → f.isLibrary = false → index.file? key = some f) :
    later.LinkedAsOf isFile seen :=
  fun key f hfile hf => h key f (hlater key f hfile hf) hf

theorem LinkedAsOf.install (h : index.LinkedAsOf isFile seen) (loaded : List LoadedLibrary) :
    (index.install loaded).LinkedAsOf isFile seen :=
  h.of_subset fun _ _ hfile hf => file?_of_install hfile hf

end Index

namespace Workspace

variable {w : Workspace} {storage : Storage} {path : Path} {content : List Char} {index : Index}
  {seen : Key → List Key}

/-- The imports of a new record are not linked. -/
theorem resolved_of_finds {l : Loader} {f : SourceFile} (h : l.Finds path f) {r : ResourceImport}
    (hr : r ∈ f.resources) : r.resolved = none := by
  rw [← h.unlinked] at hr
  obtain ⟨declared, -, rfl⟩ := List.mem_map.mp hr
  rfl

theorem linkedAsOf_staging (w : Workspace) (storage : Storage) :
    (w.staging storage).LinkedAsOf storage.isFile fun _ => (w.staging storage).keys := by
  refine Index.linkedAsOf_of_linked fun key f hfile => ?_
  obtain ⟨f?, -, hlinked⟩ := (w.loader storage).file?_resolveImports
    (scanRoots (w.loader storage) w.roots {}).1 key
  change (w.staging storage).file? key = _ at hlinked
  rw [hfile, eq_comm, Option.map_eq_some_iff] at hlinked
  obtain ⟨g, -, hg⟩ := hlinked
  exact ⟨g, hg.symm⟩

theorem linkedAsOf_updated (w : Workspace) (path : Path) (content : List Char)
    (h : index.LinkedAsOf storage.isFile seen) :
    (w.updated storage path content index).LinkedAsOf storage.isFile
      (seenAfter index (w.updated storage path content index) path.key seen) := by
  intro key f hfile hf directory hdirectory r hr target htarget
  unfold seenAfter
  by_cases hkey : key = path.key
  · -- the imports of the updated file are resolved in any case
    subst hkey
    obtain rfl := Option.some.inj ((file?_updated_self w storage path content index).symm.trans hfile)
    rw [Index.baseDirectory?_linked] at hdirectory
    simpa using Index.resolved_of_linked hdirectory hr htarget
  · obtain ⟨f?, hfills, hlinked⟩ := file?_updated_of_ne w storage content index hkey
    rw [hfile, eq_comm, Option.map_eq_some_iff] at hlinked
    obtain ⟨g, rfl, hg⟩ := hlinked
    by_cases hnew : (index.file? path.key).isNone = true
    · -- those of all files are, if the file was not there before
      rw [if_pos hnew] at hg
      subst hg
      rw [Index.baseDirectory?_linked] at hdirectory
      simpa [hnew] using Index.resolved_of_linked hdirectory hr htarget
    · rw [if_neg hnew] at hg
      subst hg
      rcases hfills with hold | ⟨hno, other, found, -, hfinds, -, hfound⟩
      · -- another file that was there keeps its links and what it saw
        have hcontains : index.contains key = true := by rw [Index.contains, ← hold]; rfl
        simpa [hnew, hkey, hcontains] using
          h key g hold.symm hf directory hdirectory r hr target htarget
      · -- one that was loaded for the update has seen nothing
        obtain rfl := Option.some.inj hfound
        simpa [hnew, hkey, hno] using resolved_of_finds hfinds hr

end Workspace

/-! ## Moves -/

namespace Session

/-- A waiting reload has linked its index and kept no event; no other session keeps events. -/
def Prepared (s : Session) (storage : Storage) : Prop :=
  match s.waiting with
  | some ⟨_, .reload staging _⟩ =>
    s.workspace.staged = some [] ∧ staging.LinkedAsOf storage.isFile fun _ => staging.keys
  | _ => s.workspace.staged = none

variable {w : Workspace} {storage : Storage}

theorem covers_prepared (h : w.staged = none) :
    Workspace.Covers (fun p => p.session.Prepared storage) storage w where
  done _ _ _ := h
  beginReload _ _ := ⟨rfl, Workspace.linkedAsOf_staging _ storage⟩
  beginRefresh _ _ _ := h

theorem prepared_resume {task : Task} (h : Prepared ⟨w, some task⟩ storage)
    (acquisition : Acquisition) : (w.resume storage task acquisition).session.Prepared storage := by
  refine Workspace.resume_cases (motive := fun p => p.session.Prepared storage) task acquisition
    (fun _ _ _ => covers_prepared rfl) fun next hnext => covers_prepared ?_
  obtain ⟨names, purpose⟩ := task
  obtain rfl : purpose = .refresh next := hnext
  exact h

end Session

namespace Ledger

variable {storage : Storage} {l : Ledger}

section Calls

variable {w : Workspace} {seen : Key → List Key}

/-- A call that brings no content at most takes records away before a reload begins. -/
theorem linked_call_of_not_written (hlinked : w.index.LinkedAsOf storage.isFile seen)
    (hstaged : w.staged = none) {c : Call} (hwritten : w.written? storage c = none) :
    (w.enact storage c).session.workspace.index.LinkedAsOf storage.isFile seen ∧
      (w.enact storage c).session.Prepared storage := by
  obtain ⟨later, hindex, -, -, hkept, henact⟩ := Workspace.enact_of_not_written hwritten
  have hlater : later.index.LinkedAsOf storage.isFile seen :=
    hlinked.of_subset fun key f hfile _ => hindex key f hfile
  have hnone : later.staged = none := by simpa [hstaged] using hkept
  rcases henact with henact | ⟨answer, henact⟩
  · rw [henact]
    refine ⟨?_, Workspace.reload_cases (Session.covers_prepared hnone)⟩
    change (later.reload storage).workspace.index.LinkedAsOf _ _
    rwa [Workspace.index_reload]
  · rw [henact]
    exact ⟨hlater, hnone⟩

theorem linked_update (hlinked : w.index.LinkedAsOf storage.isFile seen) (hstaged : w.staged = none)
    (path : Path) (content : List Char) :
    (w.updateFile storage path content).session.workspace.index.LinkedAsOf storage.isFile
        (if w.accepts path content then
          seenAfter w.index (w.updateFile storage path content).session.workspace.index path.key seen
        else seen) ∧
      (w.updateFile storage path content).session.Prepared storage := by
  cases haccepts : w.accepts path content with
  | true =>
    simp only [if_true]
    rw [Workspace.updateFile_of_accepts haccepts]
    have hupdated := Workspace.linkedAsOf_updated w path content hlinked
    simp only [hstaged]
    split
    · -- a refresh begins, which leaves the index as it is until it is answered
      refine ⟨?_, Workspace.refresh_cases (Session.covers_prepared rfl) _⟩
      change (Progress.workspace _).index.LinkedAsOf _ (seenAfter _ (Progress.workspace _).index _ _)
      rwa [Workspace.index_refresh]
    · exact ⟨hupdated, rfl⟩
  | false =>
    rw [Workspace.updateFile_of_rejects haccepts]
    simp only [hstaged, Bool.false_eq_true, if_false]
    exact ⟨hlinked.of_subset fun _ _ hfile _ => Workspace.file?_of_rejects haccepts hfile, rfl⟩

end Calls

/-- What holds along every session. -/
structure Sound (l : Ledger) (storage : Storage) : Prop where
  linked : l.session.workspace.index.LinkedAsOf storage.isFile l.seen
  prepared : l.session.Prepared storage

theorem sound_call (h : l.Sound storage) (hwaiting : l.session.waiting = none) (c : Call) :
    (l.next storage (.call c)).Sound storage := by
  obtain ⟨⟨w, waiting⟩, seen⟩ := l
  obtain rfl : waiting = none := hwaiting
  obtain ⟨hlinked, hprepared⟩ := h
  have hstaged : w.staged = none := hprepared
  have hlinked : w.index.LinkedAsOf storage.isFile seen := hlinked
  unfold next
  simp only [Session.next_call_of_idle]
  cases hwritten : w.written? storage c with
  | none =>
    obtain ⟨hindex, hsession⟩ := linked_call_of_not_written hlinked hstaged hwritten
    exact ⟨hindex, hsession⟩
  | some written =>
    obtain ⟨path, content⟩ := written
    simp only
    rw [Workspace.enact_of_written hwritten]
    obtain ⟨hindex, hsession⟩ := linked_update hlinked hstaged path content
    exact ⟨hindex, hsession⟩

theorem sound_answer (h : l.Sound storage) {task : Task} (hwaiting : l.session.waiting = some task)
    (acquisition : Acquisition) : (l.next storage (.answer acquisition)).Sound storage := by
  obtain ⟨⟨w, waiting⟩, seen⟩ := l
  obtain rfl : waiting = some task := hwaiting
  obtain ⟨hlinked, hprepared⟩ := h
  refine ⟨?_, Session.prepared_resume hprepared acquisition⟩
  obtain ⟨names, purpose⟩ := task
  cases purpose with
  | reload staging errors =>
    -- no event was kept, so the swap puts the index of the reload in place as it was linked
    obtain ⟨hstaged, hstaging⟩ := hprepared
    change (w.resume storage ⟨names, .reload staging errors⟩ acquisition).workspace.index.LinkedAsOf
      storage.isFile fun _ => staging.keys
    rw [Workspace.index_resume_reload, Workspace.replay, hstaged]
    exact hstaging.install _
  | refresh next =>
    change (w.resume storage ⟨names, .refresh next⟩ acquisition).workspace.index.LinkedAsOf
      storage.isFile seen
    rw [Workspace.index_resume_refresh]
    exact Index.LinkedAsOf.install hlinked _

theorem Reachable.sound (h : Reachable storage l) : l.Sound storage := by
  induction h with
  | start hw =>
    unfold Workspace.ofSettings at hw
    split at hw
    · obtain rfl := Except.ok.inj hw
      exact ⟨fun _ _ hfile => (nomatch hfile), rfl⟩
    · cases hw
  | @next l move _ hmove ih =>
    cases move with
    | call c => exact sound_call ih hmove c
    | answer acquisition =>
      obtain ⟨task, htask⟩ := Option.ne_none_iff_exists'.mp hmove
      exact sound_answer ih htask acquisition

/-- On files that do not change, after any calls of which none is made while the generator runs, an import
of a table file that denotes an existing file is linked to the key of that file if the key was in the
index when the imports of the table file were last resolved, and is not linked otherwise. -/
theorem links_as_last_seen (h : Reachable storage l) {key : Key} {f : SourceFile}
    (hfile : l.session.workspace.index.file? key = some f) (hf : f.isLibrary = false)
    {directory : Path} (hdirectory : f.baseDirectory? = some directory) {r : ResourceImport}
    (hr : r ∈ f.resources) {target : Path}
    (htarget : resolveImport? storage.isFile directory r.declared = some target) :
    r.resolved = if target.key ∈ l.seen key then some target.key else none :=
  h.sound.linked key f hfile hf directory hdirectory r hr target htarget

/-- A file of a project, and one next to the project that imports it. -/
def twoFiles : Storage :=
  let project := ({} : MemoryStorage).write ⟨"/p/a.robot"⟩ (Text.encode "*** Keywords ***\nA\n".toList)
  (project.write ⟨"/q/m.robot"⟩
    (Text.encode "*** Settings ***\nResource    ../p/a.robot\n".toList)).toStorage

/-- The project is opened, and its file comes to import the other one. -/
def crossing : Ledger :=
  let opened := ({ session := { workspace := .vacant } } : Ledger).next twoFiles
    (.call (.openProject ⟨"/p"⟩))
  (opened.next twoFiles (.answer ⟨[], {}⟩)).next twoFiles
    (.call (.update ⟨"/p/a.robot"⟩ "*** Settings ***\nResource    ../q/m.robot\n".toList))

theorem reachable_crossing : Reachable twoFiles crossing := by
  have hvacant : Workspace.ofSettings Workspace.vacant.settings = .ok .vacant := rfl
  refine .next (.next (.next (.start hvacant) rfl) (fun h => ?_)) ?_
  · cases h
  · exact Option.isNone_iff_eq_none.mp (by decide +kernel)

theorem links_of_crossing :
    ∃ f, crossing.session.workspace.index.file? ⟨"/p/a.robot"⟩ = some f ∧
      ∃ r ∈ f.resources, r.resolved = some ⟨"/q/m.robot"⟩ := by
  have hrun : (Path.mk "/q/m.robot").key ∈ crossing.seen ⟨"/p/a.robot"⟩ ∧
      (crossing.session.workspace.index.file? ⟨"/p/a.robot"⟩).any (fun f =>
        !f.isLibrary && f.baseDirectory? = some ⟨"/p"⟩ && ∃ r ∈ f.resources,
          resolveImport? twoFiles.isFile ⟨"/p"⟩ r.declared = some ⟨"/q/m.robot"⟩) = true := by
    decide +kernel
  obtain ⟨hseen, hfound⟩ := hrun
  obtain ⟨f, hfile, h⟩ := (Option.any_eq_true _ _).mp hfound
  simp only [Bool.and_eq_true, Bool.not_eq_true', decide_eq_true_eq] at h
  obtain ⟨⟨hf, hdirectory⟩, r, hr, htarget⟩ := h
  refine ⟨f, hfile, r, hr, ?_⟩
  have hlink := links_as_last_seen reachable_crossing hfile hf hdirectory hr htarget
  rw [if_pos hseen] at hlink
  exact hlink

/-- The file that was loaded for the update imports an indexed file and is not linked to it. -/
theorem crossing_incomplete :
    Reachable twoFiles crossing ∧
    ∃ f, crossing.session.workspace.index.file? ⟨"/q/m.robot"⟩ = some f ∧ f.isLibrary = false ∧
      ∃ directory, f.baseDirectory? = some directory ∧
        ∃ r ∈ f.resources, ∃ target,
          resolveImport? twoFiles.isFile directory r.declared = some target ∧
          crossing.session.workspace.index.contains target.key = true ∧ r.resolved = none := by
  refine ⟨reachable_crossing, ?_⟩
  have hrun : crossing.session.workspace.index.contains (Path.mk "/p/a.robot").key = true ∧
      (crossing.session.workspace.index.file? ⟨"/q/m.robot"⟩).any (fun f =>
        !f.isLibrary && f.baseDirectory? = some ⟨"/q"⟩ && ∃ r ∈ f.resources, r.resolved = none ∧
          resolveImport? twoFiles.isFile ⟨"/q"⟩ r.declared = some ⟨"/p/a.robot"⟩) = true := by
    decide +kernel
  obtain ⟨hindexed, hfound⟩ := hrun
  obtain ⟨f, hfile, h⟩ := (Option.any_eq_true _ _).mp hfound
  simp only [Bool.and_eq_true, Bool.not_eq_true', decide_eq_true_eq] at h
  obtain ⟨⟨hf, hdirectory⟩, r, hr, hlink, htarget⟩ := h
  exact ⟨f, hfile, hf, _, hdirectory, r, hr, _, htarget, hindexed, hlink⟩

end Ledger

end KeywordIndex
