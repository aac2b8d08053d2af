import KeywordIndex.Proofs.Project.Session

namespace KeywordIndex.Workspace

/-! # The course of an operation

Whatever an operation does to the index and its libraries, then it is done, or it begins a reload or a
refresh and asks the generator; only the coalescers tell which. So what holds of these three (`Covers`) holds
of every operation (`enact_cases`), and of every answer that is taken in (`resume_cases`).
-/

/-- What holds of an operation that is done with a workspace and of one that begins to reload or to refresh
it, whatever else is requested. -/
structure Covers (motive : Progress → Prop) (storage : Storage) (w : Workspace) : Prop where
  done : ∀ (reloads refreshes : Coalescer) (answer : Answer),
    motive (.done { w with reloads := reloads, refreshes := refreshes } answer)
  beginReload : ∀ reloads refreshes : Coalescer,
    motive (beginReload { w with reloads := reloads, refreshes := refreshes } storage)
  beginRefresh : ∀ (reloads refreshes : Coalescer) (next : AfterRefresh),
    motive (beginRefresh { w with reloads := reloads, refreshes := refreshes } storage next)

variable {w : Workspace} {storage : Storage} {motive : Progress → Prop}

theorem Covers.request (h : Covers motive storage w) (reloads refreshes : Coalescer) :
    Covers motive storage { w with reloads := reloads, refreshes := refreshes } where
  done := h.done
  beginReload := h.beginReload
  beginRefresh := h.beginRefresh

theorem endReload_cases (h : Covers motive storage w) (outcome : ReloadOutcome) :
    motive (w.endReload storage outcome) := by
  cases hagain : w.reloads.isPending with
  | true =>
    rw [endReload_of_again hagain]
    exact h.beginReload _ w.refreshes
  | false =>
    rw [endReload_of_once hagain]
    exact h.done .idle w.refreshes _

theorem continueWith_cases (h : Covers motive storage w) (next : AfterRefresh) :
    motive (w.continueWith storage next) := by
  cases next with
  | endReload outcome => exact endReload_cases h outcome
  | endUpdate key => exact h.done w.reloads w.refreshes _

theorem refresh_cases (h : Covers motive storage w) (next : AfterRefresh) :
    motive (w.refresh storage next) := by
  cases hrunning : w.refreshes.isRunning with
  | true =>
    rw [refresh_of_running hrunning]
    exact continueWith_cases (h.request w.reloads _) next
  | false =>
    rw [refresh_of_not_running hrunning]
    exact h.beginRefresh w.reloads _ next

theorem endRefresh_cases (h : Covers motive storage w) (next : AfterRefresh) :
    motive (w.endRefresh storage next) := by
  cases hagain : w.refreshes.isPending with
  | true =>
    rw [endRefresh_of_again hagain]
    exact h.beginRefresh w.reloads _ next
  | false =>
    rw [endRefresh_of_once hagain]
    exact continueWith_cases (h.request w.reloads .idle) next

theorem reload_cases (h : Covers motive storage w) : motive (w.reload storage) := by
  cases hrunning : w.reloads.isRunning with
  | true =>
    rw [reload_of_running hrunning]
    exact h.done _ w.refreshes _
  | false =>
    rw [reload_of_not_running hrunning]
    exact h.beginReload _ w.refreshes

/-! ## Operations -/

/-- At most a file event has changed the workspace, which leaves its libraries. -/
structure Follows (storage : Storage) (w later : Workspace) : Prop where
  settings : later.settings = w.settings
  cache : later.cache = w.cache
  projectDocuments : later.projectDocuments = w.projectDocuments
  index : later.index = w.index ∨ ∃ event, later.index = w.applyEvent storage w.index event

theorem Follows.refl (w : Workspace) : Follows storage w w := ⟨rfl, rfl, rfl, Or.inl rfl⟩

theorem updateFile_cases (h : ∀ later, Follows storage w later → Covers motive storage later) (path : Path)
    (content : List Char) : motive (w.updateFile storage path content) := by
  have hlater := h
    (record { w with index := w.applyEvent storage w.index (.update path content) } (.update path content))
    ⟨rfl, rfl, rfl, Or.inr ⟨.update path content, rfl⟩⟩
  unfold updateFile
  simp only
  split
  · exact hlater.done w.reloads w.refreshes _
  · split
    · exact refresh_cases hlater _
    · exact hlater.done w.reloads w.refreshes _

theorem enact_cases (h : ∀ later, Follows storage w later → Covers motive storage later) (c : Call) :
    motive (w.enact storage c) := by
  have hdone : ∀ answer, motive (.done w answer) :=
    fun answer => (h w (.refl w)).done w.reloads w.refreshes answer
  cases c with
  | openProject root =>
    apply reload_cases
    exact h _ ⟨rfl, rfl, rfl, Or.inl rfl⟩
  | closeProject root =>
    simp only [enact, closeProject]
    split
    · apply reload_cases
      exact h _ ⟨rfl, rfl, rfl, Or.inr ⟨.remove root, rfl⟩⟩
    · exact hdone _
  | reload => exact reload_cases (h w (.refl w))
  | update path content => exact updateFile_cases h path content
  | reloadFile path =>
    cases hread : (w.loader storage).readLimited path with
    | ok content =>
      simp only [enact, reloadFile_of_read hread]
      exact updateFile_cases h path content
    | error e =>
      simp only [enact, reloadFile_of_unread hread]
      exact hdone _
  | remove path =>
    exact (h (w.removeFile path) ⟨rfl, rfl, rfl, Or.inr ⟨.remove path, rfl⟩⟩).done w.reloads w.refreshes _

/-! ## Answers -/

theorem resume_cases (task : Task) (acquisition : Acquisition)
    (hreload : ∀ staging errors, task.purpose = .reload staging errors →
      Covers motive storage (w.swapped storage task.names staging acquisition))
    (hrefresh : ∀ next, task.purpose = .refresh next →
      Covers motive storage (w.refreshed storage task.names acquisition)) :
    motive (w.resume storage task acquisition) := by
  obtain ⟨names, purpose⟩ := task
  cases purpose with
  | reload staging errors =>
    have hswapped := hreload staging errors rfl
    rw [resume_reload]
    simp only
    split
    · exact endReload_cases hswapped _
    · exact refresh_cases hswapped _
  | refresh next =>
    rw [resume_refresh]
    exact endRefresh_cases (hrefresh next rfl) next

/-! ## The cache -/

/-- No operation caches two entries of one name. -/
theorem covers_nodup (storage : Storage) (h : w.cache.names.Nodup) :
    Covers (fun p => p.workspace.cache.names.Nodup) storage w where
  done _ _ _ := h
  beginReload _ _ := LibraryCache.nodup_prepared h _ _ _
  beginRefresh _ _ _ := LibraryCache.nodup_prepared h _ _ _

end KeywordIndex.Workspace
