import KeywordIndex.Proofs.Index.Consistency
import KeywordIndex.Proofs.Project.Idempotence

namespace KeywordIndex

open Text

/-! # The indexes of a workspace

Scans, file events and installed libraries change an index by adding and removing records and by relinking
them, so every index that a workspace comes to is consistent: the one in use, and the one that a waiting
reload has built aside (`Session.Reachable.consistent`).
-/

namespace Loader

variable {l : Loader} {index : Index}

theorem Finds.numbered {path : Path} {f : SourceFile} (h : l.Finds path f) : f.Numbered := by
  obtain ⟨content, -, -, rfl⟩ := h.read
  exact SourceFile.numbered_ofTable _ _

theorem consistent_loadMissing (h : index.Consistent) (missing : List Path) :
    (l.loadMissing missing index).1.Consistent := by
  rw [loadMissing_eq]
  refine List.foldlRecOn (motive := fun current : Index × Nat => current.1.Consistent) missing _ h
    fun current hcurrent path _ => ?_
  rcases l.loadNext_cases current path with ⟨f, hf, hnext⟩ | hnext
  · rw [hnext]
    exact hcurrent.add hf.numbered
  · rwa [hnext]

theorem consistent_resolveTwice {pass : Index → Resolution}
    (hpass : ∀ index : Index, index.Consistent → (pass index).index.Consistent) (h : index.Consistent) :
    (l.resolveTwice pass index).1.Consistent := by
  have hloaded := consistent_loadMissing (l := l) (hpass index h) (pass index).missing
  unfold resolveTwice
  simp only
  split
  · exact hloaded
  · exact hpass _ hloaded

theorem consistent_resolveImports (h : index.Consistent) : (l.resolveImports index).1.Consistent :=
  consistent_resolveTwice (fun _ h => h.resolveAll _) h

theorem consistent_resolveFileImports (h : index.Consistent) (updated : Key) :
    (l.resolveFileImports updated index).1.Consistent :=
  consistent_resolveTwice (fun _ h => h.resolve _ updated) h

end Loader

namespace Workspace

variable {w : Workspace} {storage : Storage} {index : Index}

theorem consistent_staging (w : Workspace) (storage : Storage) : (w.staging storage).Consistent :=
  Loader.consistent_resolveImports <|
    scanRoots_induction (motive := Index.Consistent) (fun _ _ _ hf h => h.add hf.numbered) w.roots
      Index.consistent_empty

theorem consistent_updated (h : index.Consistent) (path : Path) (content : List Char) :
    (w.updated storage path content index).Consistent := by
  have hadded := h.add (SourceFile.numbered_ofTable (Robot.parse content) path)
  unfold updated
  simp only
  split
  · exact Loader.consistent_resolveImports hadded
  · exact Loader.consistent_resolveFileImports hadded _

theorem consistent_applyEvent (h : index.Consistent) (event : FileEvent) :
    (w.applyEvent storage index event).Consistent := by
  cases event with
  | update path content =>
    change (w.applyUpdate storage path content index).1.Consistent
    cases haccepts : w.accepts path content with
    | true =>
      rw [applyUpdate_of_accepts storage index haccepts]
      exact consistent_updated h path content
    | false =>
      rcases (applyUpdate_of_rejects storage index haccepts).2 with hindex | ⟨-, hindex⟩
      · rw [hindex]
        exact h.remove _
      · rwa [hindex]
  | remove path => exact h.reset (some path)

theorem consistent_replay (h : index.Consistent) : (w.replay storage index).Consistent :=
  List.foldlRecOn (motive := Index.Consistent) _ _ h fun _ h event _ => consistent_applyEvent h event

end Workspace

namespace Session

/-- The index in use is consistent, and so is the one that a waiting reload has built. -/
structure Consistent (s : Session) : Prop where
  index : s.workspace.index.Consistent
  staging : ∀ task staging errors, s.waiting = some task → task.purpose = .reload staging errors →
    staging.Consistent

variable {w : Workspace} {storage : Storage} {s : Session}

theorem covers_consistent (storage : Storage) (h : w.index.Consistent) :
    Workspace.Covers (fun p => p.session.Consistent) storage w where
  done _ _ _ := ⟨h, fun _ _ _ htask => nomatch htask⟩
  beginReload reloads refreshes := by
    refine ⟨h, fun task staging errors htask hpurpose => ?_⟩
    obtain rfl := Option.some.inj htask
    obtain ⟨rfl, -⟩ := Purpose.reload.inj hpurpose
    exact Workspace.consistent_staging { w with reloads := reloads, refreshes := refreshes } storage
  beginRefresh reloads refreshes next := by
    refine ⟨h, fun task staging errors htask hpurpose => ?_⟩
    obtain rfl := Option.some.inj htask
    cases hpurpose

theorem consistent_enact (h : w.index.Consistent) (c : Call) :
    (w.enact storage c).session.Consistent := by
  refine Workspace.enact_cases (motive := fun p => p.session.Consistent)
    (fun later hlater => covers_consistent storage ?_) c
  rcases hlater.index with hindex | ⟨event, hindex⟩
  · rwa [hindex]
  · rw [hindex]
    exact Workspace.consistent_applyEvent h event

theorem consistent_resume {task : Task} (h : Consistent ⟨w, some task⟩) (acquisition : Acquisition) :
    (w.resume storage task acquisition).session.Consistent := by
  refine Workspace.resume_cases (motive := fun p => p.session.Consistent) task acquisition
    (fun staging errors hpurpose => covers_consistent storage ?_)
    fun _ _ => covers_consistent storage (h.index.install _)
  exact Workspace.consistent_replay ((h.staging task staging errors rfl hpurpose).install _)

/-- A host comes to consistent indexes only. -/
theorem Reachable.consistent (h : s.Reachable) : s.Consistent := by
  induction h with
  | @start settings w h =>
    unfold Workspace.ofSettings at h
    split at h
    · obtain rfl := Except.ok.inj h
      exact ⟨Index.consistent_empty, fun _ _ _ htask => nomatch htask⟩
    · cases h
  | @next s storage move _ _ ih =>
    obtain ⟨w, waiting⟩ := s
    cases move with
    | call c =>
      have hprogress : (w.enact storage c).session.Consistent := consistent_enact ih.index c
      refine ⟨hprogress.index, fun task staging errors htask hpurpose => ?_⟩
      -- what waits is the task of the call, or the one that waited before
      rcases Option.or_eq_some_iff.mp htask with htask | ⟨-, htask⟩
      · exact hprogress.staging task staging errors htask hpurpose
      · exact ih.staging task staging errors htask hpurpose
    | answer acquisition =>
      cases waiting with
      | none => exact ⟨ih.index, fun _ _ _ htask => nomatch htask⟩
      | some task => exact consistent_resume ih acquisition

end Session

end KeywordIndex
