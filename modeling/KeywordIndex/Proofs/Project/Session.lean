import KeywordIndex.Proofs.Project.Operation
import KeywordIndex.Proofs.Project.Update

namespace KeywordIndex

/-! # Sessions

A host calls a workspace and runs the generator for it. Only one operation waits for the generator at a
time: while one does, a call is made only if it is done at once.
-/

/-- A call of the host. -/
inductive Call where
  | openProject (root : Path)
  | closeProject (root : Path)
  | reload
  | update (path : Path) (content : List Char)
  /-- A file is updated to its content in the storage. -/
  | reloadFile (path : Path)
  | remove (path : Path)

/-- What a host does. -/
inductive Move where
  | call (call : Call)
  /-- What came of the request of the waiting task is handed in. -/
  | answer (acquisition : Acquisition)

/-- A workspace, and the task that waits for the generator. -/
structure Session where
  workspace : Workspace
  waiting : Option Task := none

namespace Workspace

variable {w : Workspace} {storage : Storage} {path : Path} {content : List Char}

/-! ## Updates -/

theorem updateFile_of_accepts (h : w.accepts path content = true) :
    w.updateFile storage path content =
      let later : Workspace :=
        { w with
          index := w.updated storage path content w.index
          staged := w.staged.map (· ++ [.update path content]) }
      if importsChanged (w.index.file? path.key) (.ofTable (Robot.parse content) path) &&
          w.staged.isNone then
        later.refresh storage (.endUpdate path.key)
      else .done later (.indexed (some path.key)) := by
  unfold updateFile
  rw [applyUpdate_of_accepts storage w.index h]
  cases w.staged <;> rfl

theorem updateFile_of_rejects (h : w.accepts path content = false) :
    w.updateFile storage path content =
      .done
        { w with
          index := (w.applyUpdate storage path content w.index).1
          staged := w.staged.map (· ++ [.update path content]) }
        (.indexed none) := by
  have hrejected := (applyUpdate_of_rejects storage w.index h).1
  unfold updateFile
  generalize w.applyUpdate storage path content w.index = result at hrejected ⊢
  obtain ⟨index, applied⟩ := result
  obtain rfl : applied = none := hrejected
  rfl

theorem reloadFile_of_read (h : (w.loader storage).readLimited path = .ok content) :
    w.reloadFile storage path = .ok (w.updateFile storage path content) := by
  unfold reloadFile
  rw [h]

theorem reloadFile_of_unread {e : Error} (h : (w.loader storage).readLimited path = .error e) :
    w.reloadFile storage path = .error e := by
  unfold reloadFile
  rw [h]

/-! ## Calls -/

/-- The new content that a call brings to a file. A file that cannot be read is not updated. -/
def written? (w : Workspace) (storage : Storage) : Call → Option (Path × List Char)
  | .update path content => some (path, content)
  | .reloadFile path =>
    match (w.loader storage).readLimited path with
    | .ok content => some (path, content)
    | .error _ => none
  | _ => none

/-- Makes a call. -/
def enact (w : Workspace) (storage : Storage) : Call → Progress
  | .openProject root => w.openProject storage root
  | .closeProject root => w.closeProject storage root
  | .reload => w.reload storage
  | .update path content => w.updateFile storage path content
  | .reloadFile path =>
    match w.reloadFile storage path with
    | .ok progress => progress
    | .error _ => .done w (.indexed none)
  | .remove path => .done (w.removeFile path) (.indexed none)

theorem enact_of_written {c : Call} (h : w.written? storage c = some (path, content)) :
    w.enact storage c = w.updateFile storage path content := by
  cases c with
  | update path' content' =>
    obtain ⟨rfl, rfl⟩ := Prod.mk.inj (Option.some.inj h)
    rfl
  | reloadFile path' =>
    cases hread : (w.loader storage).readLimited path' with
    | ok read =>
      simp only [written?, hread] at h
      obtain ⟨rfl, rfl⟩ := Prod.mk.inj (Option.some.inj h)
      simp only [enact, reloadFile_of_read hread]
    | error e => simp [written?, hread] at h
  | openProject root => cases h
  | closeProject root => cases h
  | reload => cases h
  | remove path' => cases h

/-- A call that brings no content at most takes records away, and then is done or reloads. -/
theorem enact_of_not_written {c : Call} (h : w.written? storage c = none) :
    ∃ later : Workspace,
      (∀ key f, later.index.file? key = some f → w.index.file? key = some f) ∧
      later.reloads = w.reloads ∧ later.refreshes = w.refreshes ∧
      later.staged.isNone = w.staged.isNone ∧
      (w.enact storage c = later.reload storage ∨
        ∃ answer, w.enact storage c = .done later answer) := by
  -- a removal is kept for a waiting reload, and otherwise forgotten
  have hremoved : ∀ (w : Workspace) (removed : Path),
      (w.removeFile removed).staged.isNone = w.staged.isNone := by
    intro w removed
    unfold removeFile record
    cases w.staged <;> rfl
  cases c with
  | openProject root =>
    let roots := if w.roots.any (·.sameAs root) then w.roots else w.roots ++ [root]
    exact ⟨{ w with roots := roots }, fun _ _ h => h, rfl, rfl, rfl, Or.inl rfl⟩
  | closeProject root =>
    simp only [enact, closeProject]
    split
    · let rest : Workspace := { w with roots := w.roots.filter (!·.sameAs root) }
      exact ⟨rest.removeFile root, fun _ _ h => Index.file?_of_reset h, rfl, rfl, hremoved rest root,
        Or.inl rfl⟩
    · exact ⟨w, fun _ _ h => h, rfl, rfl, rfl, Or.inr ⟨_, rfl⟩⟩
  | reload => exact ⟨w, fun _ _ h => h, rfl, rfl, rfl, Or.inl rfl⟩
  | update path content => cases h
  | reloadFile path =>
    cases hread : (w.loader storage).readLimited path with
    | ok read => simp [written?, hread] at h
    | error e =>
      simp only [enact, reloadFile_of_unread hread]
      exact ⟨w, fun _ _ h => h, rfl, rfl, rfl, Or.inr ⟨_, rfl⟩⟩
  | remove path =>
    exact ⟨w.removeFile path, fun _ _ h => Index.file?_of_reset h, rfl, rfl, hremoved w path,
      Or.inr ⟨_, rfl⟩⟩

end Workspace

/-- The session in which an operation has come so far. -/
def Progress.session (p : Progress) : Session := ⟨p.workspace, p.task?⟩

namespace Session

/-- How far a move comes. An answer that nothing waits for does nothing. -/
def progress (s : Session) (storage : Storage) : Move → Progress
  | .call c => s.workspace.enact storage c
  | .answer acquisition =>
    match s.waiting with
    | some task => s.workspace.resume storage task acquisition
    | none => .done s.workspace (.indexed none)

/-- The session after a move. What waits already goes on waiting after a call, and not after an answer. -/
def next (s : Session) (storage : Storage) (move : Move) : Session :=
  let progress := s.progress storage move
  match move with
  | .call _ => ⟨progress.workspace, progress.task?.or s.waiting⟩
  | .answer _ => progress.session

theorem next_call_of_idle (w : Workspace) (storage : Storage) (c : Call) :
    (Session.mk w none).next storage (.call c) = (w.enact storage c).session := by
  simp only [next, progress, Option.or_none]
  rfl

end Session

end KeywordIndex
