import KeywordIndex.Proofs.Project.Acquired
import KeywordIndex.Proofs.Project.Course

namespace KeywordIndex

/-! # Reloading once more

While files stay as they are, a reload scans the same, asks the same and is answered the same. What could
differ is the library cache, from which it starts: successes stay, and fallbacks stand in for what is no
success. Where no library is lost, one round of the cache is as good as two, and a second reload leaves the
workspace as it is (`reload_idempotent`). A lost library comes back with the second reload only
(`reload_not_idempotent`). A reload that has to refresh after its swap asks a second time, for fewer
libraries, and the cache forgets the others: then one reload may differ from two even where no library is
lost (`reload_not_idempotent_of_refresh`).
-/

/-- The generator reports no library that it was not asked for. -/
def ReportsRequested (run : GeneratorRequest → Except String GeneratorOutput) : Prop :=
  ∀ request, ∀ e ∈ (GeneratorRequest.acquire request run).libraries, e.name ∈ request.names

/-- An operation after the generator was run once for it, if it waited. -/
def Progress.answered (storage : Storage) (run : GeneratorRequest → Except String GeneratorOutput) :
    Progress → Progress
  | .done w answer => .done w answer
  | .waiting w task => w.resume storage task ((w.request task).acquire run)

/-- An operation comes to its end when the generator is run for every task that waits. -/
inductive Settles (storage : Storage) (run : GeneratorRequest → Except String GeneratorOutput) :
    Progress → Workspace → Answer → Prop where
  | done {w : Workspace} {answer : Answer} : Settles storage run (.done w answer) w answer
  | waiting {w later : Workspace} {task : Task} {answer : Answer}
      (h : Settles storage run (Progress.answered storage run (.waiting w task)) later answer) :
    Settles storage run (.waiting w task) later answer

namespace Session

/-- While the generator runs, a call is made only if it is done at once. -/
def Allows (s : Session) (storage : Storage) : Move → Prop
  | .call c => s.waiting = none ∨ (s.progress storage (.call c)).task? = none
  | .answer _ => s.waiting ≠ none

/-- What a host comes to that starts with some settings, whatever is in the storage at each move and
whatever the generator answers. -/
inductive Reachable : Session → Prop where
  | start {settings : Settings} {w : Workspace} (h : Workspace.ofSettings settings = .ok w) :
    Reachable { workspace := w }
  | next {s : Session} {storage : Storage} {move : Move} (h : Reachable s)
      (hmove : s.Allows storage move) : Reachable (s.next storage move)

end Session

namespace Workspace

variable {w : Workspace} {storage : Storage}

/-! ## The cache of a workspace -/

/-- The library documents in the open projects. -/
def documents (w : Workspace) (storage : Storage) : List Path :=
  (scanRoots (w.loader storage) w.roots {}).2.1

/-- The messages of the open projects that cannot be scanned. -/
def faults (w : Workspace) (storage : Storage) : List String :=
  (scanRoots (w.loader storage) w.roots {}).2.2

/-! ## Two reloads -/

section TwoReloads

variable (w storage)

/-- The cache with which a reload asks. -/
def askedCache : LibraryCache :=
  w.cache.prepared (w.bundledDocuments storage) (w.documents storage) (w.needed (w.staging storage))

/-- The workspace in which a reload waits. -/
def asking : Workspace :=
  { w with
    cache := w.askedCache storage
    projectDocuments := w.documents storage
    state := .loading
    staged := some []
    reloads := { isRunning := true } }

/-- The workspace that a reload leaves if nothing happens meanwhile. -/
def reloaded (acquisition : Acquisition) : Workspace :=
  let found := (w.askedCache storage).round storage (w.needed (w.staging storage)) acquisition
  { w with
    cache := found.1
    index := (w.staging storage).install found.2
    projectDocuments := w.documents storage
    state := .loaded
    staged := none
    reloads := .idle }

variable {w storage}

theorem reload_asks (storage : Storage) (h : w.reloads = .idle) :
    w.reload storage = .waiting (w.asking storage)
      ⟨w.needed (w.staging storage), .reload (w.staging storage) (w.faults storage)⟩ := by
  rw [reload_of_not_running (by rw [h, Coalescer.isRunning_idle]), h]
  rfl

/-- The same before the reload is ended. -/
def ending (w : Workspace) (storage : Storage) (acquisition : Acquisition) : Workspace :=
  { w.reloaded storage acquisition with reloads := { isRunning := true } }

theorem ended_ending (w : Workspace) (storage : Storage) (acquisition : Acquisition) :
    { w.ending storage acquisition with reloads := .idle } = w.reloaded storage acquisition := by
  simp only [ending, reloaded]

theorem needed_ending (w : Workspace) (storage : Storage) (acquisition : Acquisition) :
    (w.ending storage acquisition).needed (w.ending storage acquisition).index =
      w.needed (w.reloaded storage acquisition).index := by
  simp only [needed, ending, reloaded]

/-- Without events, the swap puts the scanned index in place. -/
theorem swapped_asking (w : Workspace) (storage : Storage) (acquisition : Acquisition) :
    (w.asking storage).swapped storage (w.needed (w.staging storage)) (w.staging storage) acquisition =
      w.ending storage acquisition := by
  simp only [swapped, asking, ending, reloaded, replay, Option.getD_some, List.foldl_nil]

/-- A reload that has got all needed libraries leaves the workspace reloaded. -/
theorem resume_asking (w : Workspace) (storage : Storage) {acquisition : Acquisition}
    (hsame : sameElements (w.needed (w.reloaded storage acquisition).index)
      (w.needed (w.staging storage)) = true) :
    (w.asking storage).resume storage
        ⟨w.needed (w.staging storage), .reload (w.staging storage) (w.faults storage)⟩ acquisition =
      .done (w.reloaded storage acquisition) (.outcome (outcomeOf (w.faults storage))) := by
  have honce : (w.ending storage acquisition).reloads.isPending = false := rfl
  rw [resume_reload, swapped_asking]
  simp only [needed_ending, hsame, if_true]
  rw [endReload_of_once honce, ended_ending]

/-- A reload that is done with one answer has got all needed libraries. -/
theorem same_of_done (hrefreshes : w.refreshes = .idle) {acquisition : Acquisition}
    (hdone : ((w.asking storage).resume storage
      ⟨w.needed (w.staging storage), .reload (w.staging storage) (w.faults storage)⟩
        acquisition).task? = none) :
    sameElements (w.needed (w.reloaded storage acquisition).index)
      (w.needed (w.staging storage)) = true := by
  by_contra hsame
  -- otherwise the swap refreshes, and waits again
  have hidle : (w.ending storage acquisition).refreshes.isRunning = false := by
    simp only [ending, reloaded, hrefreshes, Coalescer.isRunning_idle]
  rw [resume_reload, swapped_asking] at hdone
  simp only [needed_ending, if_neg hsame] at hdone
  rw [refresh_of_not_running hidle] at hdone
  cases hdone

/-! A scan depends on neither the index nor the cache. -/

section Scans

variable (w storage) (acquisition : Acquisition)

theorem staging_reloaded : (w.reloaded storage acquisition).staging storage = w.staging storage := by
  simp only [staging, loader, reloaded]

theorem documents_reloaded :
    (w.reloaded storage acquisition).documents storage = w.documents storage := by
  simp only [documents, loader, reloaded]

theorem faults_reloaded : (w.reloaded storage acquisition).faults storage = w.faults storage := by
  simp only [faults, loader, reloaded]

theorem needed_reloaded (index : Index) :
    (w.reloaded storage acquisition).needed index = w.needed index := by
  simp only [needed, reloaded]

theorem bundledDocuments_reloaded :
    (w.reloaded storage acquisition).bundledDocuments storage = w.bundledDocuments storage := by
  simp only [bundledDocuments, reloaded]

end Scans

theorem askedCache_reloaded {acquisition : Acquisition}
    (hreported : ∀ e ∈ acquisition.libraries, e.name ∈ w.needed (w.staging storage)) :
    (w.reloaded storage acquisition).askedCache storage =
      ((w.askedCache storage).round storage (w.needed (w.staging storage)) acquisition).1 := by
  have hround := LibraryCache.prepared_round w.cache storage (w.bundledDocuments storage)
    (w.documents storage) hreported
  simp only [askedCache, bundledDocuments_reloaded, documents_reloaded, needed_reloaded,
    staging_reloaded]
  exact hround

/-- Reloading once more with the same answer changes nothing. -/
theorem reloaded_reloaded {acquisition : Acquisition} (hnodup : w.cache.names.Nodup)
    (hreported : ∀ e ∈ acquisition.libraries, e.name ∈ w.needed (w.staging storage))
    (hlost : ∀ name, ¬ LibraryCache.Lost storage acquisition.libraries name
      ((w.askedCache storage).standIn? (w.needed (w.staging storage)) name)
      (LibraryCache.entry? (w.askedCache storage) name)) :
    (w.reloaded storage acquisition).reloaded storage acquisition = w.reloaded storage acquisition := by
  have hround : ((w.reloaded storage acquisition).askedCache storage).round storage
      (w.needed (w.staging storage)) acquisition =
        (w.askedCache storage).round storage (w.needed (w.staging storage)) acquisition := by
    rw [askedCache_reloaded hreported]
    exact LibraryCache.round_round (LibraryCache.nodup_prepared hnodup _ _ _) hlost
  rw [reloaded]
  simp only [staging_reloaded, documents_reloaded, needed_reloaded, hround]
  simp only [reloaded]

/-- A second reload that is answered as the first one ends where it began. -/
theorem settles_reloaded {run : GeneratorRequest → Except String GeneratorOutput}
    {acquisition : Acquisition}
    (hanswer : (w.request
      ⟨w.needed (w.staging storage), .reload (w.staging storage) (w.faults storage)⟩).acquire run =
        acquisition)
    (hsame : sameElements (w.needed (w.reloaded storage acquisition).index)
      (w.needed (w.staging storage)) = true)
    (hagain : (w.reloaded storage acquisition).reloaded storage acquisition =
      w.reloaded storage acquisition) :
    Settles storage run ((w.reloaded storage acquisition).reload storage)
      (w.reloaded storage acquisition) (.outcome (outcomeOf (w.faults storage))) := by
  have hidle : (w.reloaded storage acquisition).reloads = .idle := by simp only [reloaded]
  have hreload := reload_asks storage hidle
  simp only [staging_reloaded, needed_reloaded, faults_reloaded] at hreload
  have hrequest : ∀ task, ((w.reloaded storage acquisition).asking storage).request task =
      w.request task := by
    intro task
    simp only [request, asking, reloaded]
  -- it is the reload of the same workspace, so the first one's equations hold of it
  have hresume := @resume_asking (w.reloaded storage acquisition) storage acquisition
  simp only [hagain, staging_reloaded, needed_reloaded, faults_reloaded] at hresume
  rw [hreload]
  refine .waiting ?_
  rw [Progress.answered, hrequest, hanswer, hresume hsame]
  exact .done

end TwoReloads

end Workspace

namespace Session

variable {s : Session}

/-- The account of a session whose requests nobody has kept. -/
theorem Reachable.exists_sound (h : s.Reachable) :
    ∃ asked brought, Account.Sound ⟨s, asked, brought⟩ := by
  induction h with
  | @start settings w h =>
    refine ⟨[], [], ?_⟩
    unfold Workspace.ofSettings at h
    split at h
    · obtain rfl := Except.ok.inj h
      refine ⟨rfl, rfl, rfl, ?_, ?_⟩
      · intro key f hfile
        cases hfile
      · intro key f hfile
        cases hfile
    · cases h
  | @next s storage move _ hmove ih =>
    obtain ⟨asked, brought, hsound⟩ := ih
    cases move with
    | call c => exact ⟨_, _, Account.sound_call hsound hmove⟩
    | answer acquisition =>
      obtain ⟨task, htask⟩ := Option.ne_none_iff_exists'.mp hmove
      exact ⟨_, _, Account.sound_answer hsound htask acquisition⟩

/-- Where nothing waits, nothing runs. -/
theorem Reachable.idle (h : s.Reachable) (hwaiting : s.waiting = none) :
    s.workspace.reloads = .idle ∧ s.workspace.refreshes = .idle ∧ s.workspace.staged = none := by
  obtain ⟨asked, brought, hsound⟩ := h.exists_sound
  simp only [Account.Sound, Sound, hwaiting] at hsound
  exact ⟨hsound.reloads, hsound.refreshes, hsound.staged⟩

/-- A run follows only while one is in progress. -/
theorem Reachable.coalescers (h : s.Reachable) :
    (s.workspace.reloads.isPending = true → s.workspace.reloads.isRunning = true) ∧
      (s.workspace.refreshes.isPending = true → s.workspace.refreshes.isRunning = true) := by
  have hidle {c : Coalescer} (hc : c = .idle) : c.isPending = true → c.isRunning = true := by
    rw [hc]
    exact id
  obtain ⟨asked, brought, hsound⟩ := h.exists_sound
  simp only [Account.Sound, Sound] at hsound
  split at hsound
  · exact ⟨hidle hsound.reloads, hidle hsound.refreshes⟩
  · exact ⟨fun _ => hsound.reloads, hidle hsound.refreshes⟩
  · next next _ =>
    have hfits := hsound.fits
    cases next with
    | endReload outcome => exact ⟨fun _ => hfits, fun _ => hsound.refreshes⟩
    | endUpdate key => exact ⟨hidle hfits, fun _ => hsound.refreshes⟩

/-- What holds of every workspace without projects and is kept by every operation and every answer holds of
every workspace that a host comes to. -/
theorem Reachable.workspace_induction {motive : Workspace → Prop} (h : s.Reachable)
    (start : ∀ settings patterns, motive { settings := settings, patterns := patterns })
    (enact : ∀ (w : Workspace) (storage : Storage) (c : Call), motive w →
      motive (w.enact storage c).workspace)
    (resume : ∀ (w : Workspace) (storage : Storage) (task : Task) (acquisition : Acquisition), motive w →
      motive (w.resume storage task acquisition).workspace) : motive s.workspace := by
  induction h with
  | @start settings w h =>
    unfold Workspace.ofSettings at h
    split at h
    · obtain rfl := Except.ok.inj h
      exact start _ _
    · cases h
  | @next s storage move _ _ ih =>
    cases move with
    | call c => exact enact _ storage c ih
    | answer acquisition =>
      change motive (s.progress storage (.answer acquisition)).workspace
      unfold progress
      cases s.waiting with
      | none => exact ih
      | some task => exact resume _ storage task acquisition ih

theorem Reachable.nodup_names (h : s.Reachable) : s.workspace.cache.names.Nodup := by
  refine h.workspace_induction (motive := fun w => w.cache.names.Nodup) (fun _ _ => List.nodup_nil)
    (fun w storage c hw => ?_) fun w storage task acquisition hw => ?_
  · exact Workspace.enact_cases
      (fun later hlater => Workspace.covers_nodup storage (hlater.cache.symm ▸ hw)) c
  · have hround := LibraryCache.nodup_round storage task.names acquisition hw
    exact Workspace.resume_cases task acquisition (fun _ _ _ => Workspace.covers_nodup storage hround)
      fun _ _ => Workspace.covers_nodup storage hround

end Session

/-- Whatever happened before, a reload waits for the generator; and if from then on the files stay as they
are, equal requests are answered equally and with requested libraries alone, the reload is done with one
answer, and no library is lost, then a second reload leaves the whole workspace as the first one has left
it: the records and the library cache are the same. -/
theorem reload_idempotent {s : Session} (h : s.Reachable) (hidle : s.waiting = none) (storage : Storage)
    (run : GeneratorRequest → Except String GeneratorOutput) (hrun : ReportsRequested run) :
    ∃ asking task, s.workspace.reload storage = .waiting asking task ∧
      let answer := (asking.request task).acquire run
      ((asking.resume storage task answer).task? = none →
        (∀ name, ¬ LibraryCache.Lost storage answer.libraries name
          (asking.cache.standIn? task.names name) (asking.cache.entry? name)) →
        ∃ once outcome, Settles storage run (s.workspace.reload storage) once (.outcome outcome) ∧
          Settles storage run (once.reload storage) once (.outcome outcome)) := by
  obtain ⟨hreloads, hrefreshes, -⟩ := h.idle hidle
  have hnodup := h.nodup_names
  generalize s.workspace = w at hreloads hrefreshes hnodup
  have hreload := Workspace.reload_asks storage hreloads
  refine ⟨_, _, hreload, ?_⟩
  have hrequest : ∀ task, (w.asking storage).request task = w.request task := by
    intro task
    simp only [Workspace.request, Workspace.asking]
  simp only [hrequest]
  generalize hanswer : (w.request _).acquire run = acquisition
  intro hdone hlost
  have hreported : ∀ e ∈ acquisition.libraries, e.name ∈ w.needed (w.staging storage) :=
    hanswer ▸ hrun (w.request _)
  have hsame := Workspace.same_of_done hrefreshes hdone
  have hagain := Workspace.reloaded_reloaded hnodup hreported hlost
  refine ⟨w.reloaded storage acquisition, Workspace.outcomeOf (w.faults storage), ?_,
    Workspace.settles_reloaded hanswer hsame hagain⟩
  rw [hreload]
  refine .waiting ?_
  rw [Progress.answered, hrequest, hanswer, Workspace.resume_asking w storage hsame]
  exact .done

/-! ## A project without a generator -/

theorem Settles.of_answered {storage : Storage}
    {run : GeneratorRequest → Except String GeneratorOutput} {p : Progress} {later : Workspace}
    {answer : Answer} (h : Settles storage run (p.answered storage run) later answer) :
    Settles storage run p later answer := by
  cases p with
  | done w answer => exact h
  | waiting w task => exact .waiting h

theorem settles_of_done {storage : Storage} {run : GeneratorRequest → Except String GeneratorOutput}
    {p : Progress} (h : p.task?.isNone = true) : ∃ answer, Settles storage run p p.workspace answer := by
  cases p with
  | done w answer => exact ⟨answer, .done⟩
  | waiting w task => cases h

/-- A generator that never runs. -/
def noGenerator : GeneratorRequest → Except String GeneratorOutput := fun _ => .error "no generator"

theorem reportsRequested_noGenerator : ReportsRequested noGenerator := by
  have hfailed : ∀ request message, ∀ e ∈ (Acquisition.failed request message).libraries,
      e.name ∈ request.names := by
    intro request message e he
    obtain ⟨name, hname, rfl⟩ := List.mem_map.mp he
    exact hname
  intro request e he
  unfold GeneratorRequest.acquire GeneratorRequest.refusal? at he
  split at he
  · next refusal hrefusal =>
    split at hrefusal
    · exact hfailed request _ e (Option.some.inj hrefusal ▸ he)
    · split at hrefusal
      · exact hfailed request _ e (Option.some.inj hrefusal ▸ he)
      · cases hrefusal
  · exact hfailed request _ e he

/-- The document of a library with one keyword. -/
def document : Text.Bytes :=
  Text.encode "<keywordspec name=\"BuiltIn\"><kw name=\"Log\"></kw></keywordspec>".toList

/-- A document that comes with the program. -/
def bundled : MemoryStorage := ({} : MemoryStorage).write ⟨"/bundled/BuiltIn.xml"⟩ document

/-- The generated document besides. -/
def generated : MemoryStorage := bundled.write ⟨"/gen/BuiltIn.xml"⟩ document

/-- Settings with a directory for each of them. -/
def places : Settings := .standard ⟨⟨"/gen"⟩, some ⟨"/bundled"⟩⟩

theorem ofSettings_places :
    Workspace.ofSettings places = .ok { settings := places, patterns := [] } := rfl

/-- A first reload waits. -/
def asked : Session :=
  Session.next { workspace := { settings := places, patterns := [] } } generated.toStorage (.call .reload)

/-- The library is generated. -/
def acquired : Session :=
  asked.next generated.toStorage (.answer
    ⟨[{ name := "BuiltIn", status := .success, document := some ⟨"/gen/BuiltIn.xml"⟩ }], {}⟩)

theorem reachable_acquired : acquired.Reachable := by
  have hasked : asked.Reachable := .next (.start ofSettings_places) (Or.inl rfl)
  have hwaiting : asked.waiting.isSome = true := by decide +kernel
  exact .next hasked (Option.isSome_iff_ne_none.mp hwaiting)

/-- The generator fails now, but the document that it has left can be read: reloading keeps it. -/
theorem reload_idempotent_acquired :
    acquired.waiting = none ∧
      ∃ once outcome,
        Settles generated.toStorage noGenerator (acquired.workspace.reload generated.toStorage) once
          (.outcome outcome) ∧
        Settles generated.toStorage noGenerator (once.reload generated.toStorage) once
          (.outcome outcome) := by
  have hrun : acquired.waiting.isNone = true ∧
      (((acquired.workspace.reload generated.toStorage).answered generated.toStorage
        noGenerator).task?).isNone = true ∧
      (acquired.workspace.reload generated.toStorage).workspace.cache.entries.map (·.document) =
        [some ⟨"/gen/BuiltIn.xml"⟩] ∧
      (LibraryCache.readDocument generated.toStorage ⟨"/gen/BuiltIn.xml"⟩).toBool = true := by
    decide +kernel
  obtain ⟨hidle, hdone, hkept, hread⟩ := hrun
  rw [Option.isNone_iff_eq_none] at hidle hdone
  obtain ⟨asking, task, hreload, hagain⟩ := reload_idempotent reachable_acquired hidle
    generated.toStorage noGenerator reportsRequested_noGenerator
  rw [hreload] at hdone hkept
  simp only [Progress.workspace] at hkept
  refine ⟨hidle, hagain hdone ?_⟩
  rintro name ⟨e, message, he, ⟨-, found, hfound, hunread⟩, -⟩
  -- no library is lost: the one document in the cache can be read
  have hmem : e.document ∈ asking.cache.entries.map (·.document) :=
    List.mem_map_of_mem (List.mem_of_find?_eq_some he)
  have hdocument : found = ⟨"/gen/BuiltIn.xml"⟩ := by
    rw [hkept, hfound] at hmem
    simpa using hmem
  rw [← hdocument, hunread] at hread
  cases hread

/-- The document that the generator has left is gone, and the generator fails. The first reload notes that
it cannot be read, and only the second one lets the bundled document stand in. -/
theorem reload_not_idempotent :
    acquired.Reachable ∧ acquired.waiting = none ∧ ReportsRequested noGenerator ∧
      ∃ once twice first second,
        Settles bundled.toStorage noGenerator (acquired.workspace.reload bundled.toStorage) once first ∧
        Settles bundled.toStorage noGenerator (once.reload bundled.toStorage) twice second ∧
        once.index.keys = [] ∧ twice.index.keys = [⟨"builtin"⟩] ∧
        once.cache.entries.map (·.status) = [.error] ∧ twice.cache.entries.map (·.status) = [.success] := by
  let storage := bundled.toStorage
  let once := (acquired.workspace.reload storage).answered storage noGenerator
  let twice := (once.workspace.reload storage).answered storage noGenerator
  have hrun : acquired.waiting.isNone = true ∧ once.task?.isNone = true ∧ twice.task?.isNone = true ∧
      once.workspace.index.keys = [] ∧ twice.workspace.index.keys = [⟨"builtin"⟩] ∧
      once.workspace.cache.entries.map (·.status) = [.error] ∧
      twice.workspace.cache.entries.map (·.status) = [.success] := by
    decide +kernel
  obtain ⟨hidle, hfirst, hsecond, hfound⟩ := hrun
  obtain ⟨first, hfirst⟩ := settles_of_done hfirst
  obtain ⟨second, hsecond⟩ := settles_of_done hsecond
  exact ⟨reachable_acquired, Option.isNone_iff_eq_none.mp hidle, reportsRequested_noGenerator,
    once.workspace, twice.workspace, first, second, hfirst.of_answered, hsecond.of_answered, hfound⟩

/-! ## A library in the place of a table file -/

/-- Opening a project waits. -/
def opening : Session :=
  Session.next { workspace := { settings := places, patterns := [] } } generated.toStorage
    (.call (.openProject ⟨"/p"⟩))

/-- The open project cannot be read yet. -/
def opened : Session :=
  opening.next generated.toStorage (.answer ⟨[], {}⟩)

/-- A file in no project comes to import a library, which is asked for. -/
def importing : Session :=
  opened.next generated.toStorage (.call (.update ⟨"/q/c.robot"⟩
    "*** Settings ***\nLibrary    /p/a.robot\n".toList))

/-- The library is generated. -/
def imported : Session :=
  importing.next generated.toStorage (.answer
    ⟨[{ name := "/p/a.robot", status := .success, document := some ⟨"/gen/BuiltIn.xml"⟩ }], {}⟩)

theorem reachable_imported : imported.Reachable := by
  have hrun : opening.waiting.isSome = true ∧ opened.waiting.isNone = true ∧
      importing.waiting.isSome = true := by
    decide +kernel
  obtain ⟨hopening, hopened, himporting⟩ := hrun
  have hreachable : opening.Reachable := .next (.start ofSettings_places) (Or.inl rfl)
  have hreached : importing.Reachable :=
    .next (.next hreachable (Option.isSome_iff_ne_none.mp hopening))
      (Or.inl (Option.isNone_iff_eq_none.mp hopened))
  exact .next hreached (Option.isSome_iff_ne_none.mp himporting)

/-- Now the project has a table file of the name of the library, which imports it too. -/
def selfImport : Storage :=
  (generated.write ⟨"/p/a.robot"⟩
    (Text.encode "*** Settings ***\nLibrary    /p/a.robot\n".toList)).toStorage

/-- No library is lost, but the kept one takes the place of the file that imports it, so that a refresh
drops it; the second reload does not have it any more. -/
theorem reload_not_idempotent_of_refresh :
    imported.Reachable ∧ imported.waiting = none ∧
      ∃ once twice first second,
        Settles selfImport noGenerator (imported.workspace.reload selfImport) once first ∧
        Settles selfImport noGenerator (once.reload selfImport) twice second ∧
        once.index.keys = [⟨"builtin"⟩] ∧ twice.index.keys = [⟨"/p/a.robot"⟩, ⟨"builtin"⟩] := by
  let once := ((imported.workspace.reload selfImport).answered selfImport noGenerator).answered
    selfImport noGenerator
  let twice := (once.workspace.reload selfImport).answered selfImport noGenerator
  have hrun : imported.waiting.isNone = true ∧ once.task?.isNone = true ∧ twice.task?.isNone = true ∧
      once.workspace.index.keys = [⟨"builtin"⟩] ∧
      twice.workspace.index.keys = [⟨"/p/a.robot"⟩, ⟨"builtin"⟩] := by
    decide +kernel
  obtain ⟨hidle, hfirst, hsecond, hfound⟩ := hrun
  obtain ⟨first, hfirst⟩ := settles_of_done hfirst
  obtain ⟨second, hsecond⟩ := settles_of_done hsecond
  exact ⟨reachable_imported, Option.isNone_iff_eq_none.mp hidle, once.workspace, twice.workspace, first,
    second, hfirst.of_answered.of_answered, hsecond.of_answered, hfound⟩

end KeywordIndex
