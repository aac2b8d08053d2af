import KeywordIndex.Project.Workspace
import KeywordIndex.Proofs.Library.Cache
import KeywordIndex.Proofs.Project.Coalescing
import KeywordIndex.Proofs.Project.Loading

namespace KeywordIndex

/-! # What operations leave as it is

Each operation in terms of the two coalescers: when it is done, when it waits for the generator, and with
which task. Only a swap and the installation of libraries change the index in use without a file event.
-/

namespace Progress

/-- The workspace so far. -/
def workspace : Progress → Workspace
  | .done w _ => w
  | .waiting w _ => w

/-- The task that waits for the generator, if there is one. -/
def task? : Progress → Option Task
  | .done _ _ => none
  | .waiting _ task => some task

end Progress

namespace Workspace

variable {w : Workspace} {storage : Storage}

/-- A workspace without projects that knows no fallbacks. -/
def vacant : Workspace where
  settings := .standard ⟨⟨"/tmp/robot-lib-cache"⟩, none⟩
  patterns := []

/-- The index that a reload builds aside. -/
def staging (w : Workspace) (storage : Storage) : Index :=
  ((w.loader storage).resolveImports (scanRoots (w.loader storage) w.roots {}).1).1

/-- What holds of the index before projects are scanned and is kept by every found record holds
afterwards. -/
theorem scanRoots_induction {l : Loader} {motive : Index → Prop}
    (hadd : ∀ index path f, l.Finds path f → motive index → motive (index.add f)) (roots : List Path)
    {index : Index} (h : motive index) : motive (scanRoots l roots index).1 := by
  induction roots generalizing index with
  | nil => exact h
  | cons root rest ih =>
    unfold scanRoots
    split
    · next found hscan => exact ih (Loader.scan_induction hadd hscan h)
    · exact ih h

/-! ## Asking the generator -/

/-- A reload waits with the index that it has built, and the index in use stays. -/
theorem beginReload_eq (w : Workspace) (storage : Storage) :
    ∃ documents cache errors, w.beginReload storage =
      .waiting
        { w with state := .loading, staged := some [], projectDocuments := documents, cache := cache }
        ⟨w.needed (w.staging storage), .reload (w.staging storage) errors⟩ :=
  ⟨_, _, _, rfl⟩

/-! ## Coalescing -/

theorem reload_of_not_running (h : w.reloads.isRunning = false) :
    w.reload storage = { w with reloads := w.reloads.begin.1 }.beginReload storage := by
  unfold reload
  rw [Coalescer.begin_of_not_running h]

theorem reload_of_running (h : w.reloads.isRunning = true) :
    w.reload storage = .done { w with reloads := w.reloads.begin.1 } (.outcome .scheduled) := by
  unfold reload
  rw [Coalescer.begin_of_running h]

theorem refresh_of_not_running (h : w.refreshes.isRunning = false) (next : AfterRefresh) :
    w.refresh storage next = { w with refreshes := w.refreshes.begin.1 }.beginRefresh storage next := by
  unfold refresh
  rw [Coalescer.begin_of_not_running h]

theorem refresh_of_running (h : w.refreshes.isRunning = true) (next : AfterRefresh) :
    w.refresh storage next = { w with refreshes := w.refreshes.begin.1 }.continueWith storage next := by
  unfold refresh
  rw [Coalescer.begin_of_running h]

theorem endReload_of_again (h : w.reloads.isPending = true) (outcome : ReloadOutcome) :
    w.endReload storage outcome = { w with reloads := w.reloads.finish.1 }.beginReload storage := by
  unfold endReload
  rw [Coalescer.finish_of_pending h]
  rfl

theorem endReload_of_once (h : w.reloads.isPending = false) (outcome : ReloadOutcome) :
    w.endReload storage outcome = .done { w with reloads := .idle } (.outcome outcome) := by
  unfold endReload
  rw [Coalescer.finish_of_not_pending h]
  rfl

theorem endRefresh_of_again (h : w.refreshes.isPending = true) (next : AfterRefresh) :
    w.endRefresh storage next = { w with refreshes := w.refreshes.finish.1 }.beginRefresh storage next := by
  unfold endRefresh
  rw [Coalescer.finish_of_pending h]
  rfl

theorem endRefresh_of_once (h : w.refreshes.isPending = false) (next : AfterRefresh) :
    w.endRefresh storage next = { w with refreshes := .idle }.continueWith storage next := by
  unfold endRefresh
  rw [Coalescer.finish_of_not_pending h]
  rfl

/-! ## The index in use -/

@[simp] theorem index_beginReload (w : Workspace) (storage : Storage) :
    (w.beginReload storage).workspace.index = w.index := rfl

@[simp] theorem index_beginRefresh (w : Workspace) (storage : Storage) (next : AfterRefresh) :
    (w.beginRefresh storage next).workspace.index = w.index := rfl

@[simp] theorem index_endReload (w : Workspace) (storage : Storage) (outcome : ReloadOutcome) :
    (w.endReload storage outcome).workspace.index = w.index := by
  cases h : w.reloads.isPending with
  | true => rw [endReload_of_again h, index_beginReload]
  | false =>
    rw [endReload_of_once h]
    rfl

@[simp] theorem index_continueWith (w : Workspace) (storage : Storage) (next : AfterRefresh) :
    (w.continueWith storage next).workspace.index = w.index := by
  cases next with
  | endReload outcome => exact w.index_endReload storage outcome
  | endUpdate key => rfl

@[simp] theorem index_refresh (w : Workspace) (storage : Storage) (next : AfterRefresh) :
    (w.refresh storage next).workspace.index = w.index := by
  cases h : w.refreshes.isRunning with
  | true => rw [refresh_of_running h, index_continueWith]
  | false => rw [refresh_of_not_running h, index_beginRefresh]

@[simp] theorem index_endRefresh (w : Workspace) (storage : Storage) (next : AfterRefresh) :
    (w.endRefresh storage next).workspace.index = w.index := by
  cases h : w.refreshes.isPending with
  | true => rw [endRefresh_of_again h, index_beginRefresh]
  | false => rw [endRefresh_of_once h, index_continueWith]

@[simp] theorem index_reload (w : Workspace) (storage : Storage) :
    (w.reload storage).workspace.index = w.index := by
  cases h : w.reloads.isRunning with
  | true =>
    rw [reload_of_running h]
    rfl
  | false => rw [reload_of_not_running h, index_beginReload]

/-! ## Going on after the generator -/

/-- The workspace with the index of a reload in place. -/
def swapped (w : Workspace) (storage : Storage) (names : List String) (staging : Index)
    (acquisition : Acquisition) : Workspace :=
  { w with
    cache := (w.cache.round storage names acquisition).1
    index := w.replay storage (staging.install (w.cache.round storage names acquisition).2)
    staged := none
    state := .loaded }

/-- The workspace with the libraries of a refresh in place. -/
def refreshed (w : Workspace) (storage : Storage) (names : List String) (acquisition : Acquisition) :
    Workspace :=
  { w with
    cache := (w.cache.round storage names acquisition).1
    index := w.index.install (w.cache.round storage names acquisition).2 }

/-- The answer to a reload is taken in, and its index put in place with the loaded libraries and the events
since. -/
theorem resume_reload (w : Workspace) (storage : Storage) (names : List String) (staging : Index)
    (errors : List String) (acquisition : Acquisition) :
    w.resume storage ⟨names, .reload staging errors⟩ acquisition =
      let later := w.swapped storage names staging acquisition
      if sameElements (later.needed later.index) names then later.endReload storage (outcomeOf errors)
      else later.refresh storage (.endReload (outcomeOf errors)) := rfl

/-- The answer to a refresh is taken in, and the loaded libraries are installed. -/
theorem resume_refresh (w : Workspace) (storage : Storage) (names : List String) (next : AfterRefresh)
    (acquisition : Acquisition) :
    w.resume storage ⟨names, .refresh next⟩ acquisition =
      (w.refreshed storage names acquisition).endRefresh storage next := rfl

theorem index_resume_reload (w : Workspace) (storage : Storage) (names : List String) (staging : Index)
    (errors : List String) (acquisition : Acquisition) :
    (w.resume storage ⟨names, .reload staging errors⟩ acquisition).workspace.index =
      w.replay storage (staging.install (w.takeIn storage names acquisition).2) := by
  rw [resume_reload]
  simp only
  split
  · rw [index_endReload]
    rfl
  · rw [index_refresh]
    rfl

theorem index_resume_refresh (w : Workspace) (storage : Storage) (names : List String)
    (next : AfterRefresh) (acquisition : Acquisition) :
    (w.resume storage ⟨names, .refresh next⟩ acquisition).workspace.index =
      w.index.install (w.takeIn storage names acquisition).2 := by
  rw [resume_refresh, index_endRefresh]
  rfl

/-! ## File events -/

/-- While a reload waits, an update is answered at once and kept for it. -/
theorem updateFile_of_staged {events : List FileEvent} (h : w.staged = some events)
    (storage : Storage) (path : Path) (content : List Char) :
    ∃ answer, w.updateFile storage path content =
      .done
        { w with
          index := w.applyEvent storage w.index (.update path content)
          staged := some (events ++ [.update path content]) }
        answer := by
  unfold updateFile applyEvent record
  simp only [h, Option.map_some, Option.isNone_some, Bool.and_false]
  split
  · exact ⟨_, rfl⟩
  · exact ⟨_, rfl⟩

end Workspace

end KeywordIndex
