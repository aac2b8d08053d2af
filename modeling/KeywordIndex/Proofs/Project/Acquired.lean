import KeywordIndex.Proofs.Index.Views
import KeywordIndex.Proofs.Project.Session
import KeywordIndex.Storage.Memory

namespace KeywordIndex

/-! # Which libraries were asked for

A library is asked for when a reload begins, when the events of a reload need another one, and when an
update changes the libraries that its own file imports. An update of one file may load others whose
libraries nobody asks for: `Account` keeps account of these files until the next request that takes them
in. Of all other indexed files, once nothing runs or is to run, every library was among the names of the
last request (`libraries_asked`).

The invariant is `Sound`: while a refresh waits, either another one is to follow it or the index is covered
already; while a reload waits, the swap will see to it.
-/

/-- Every library that a table file imports was asked for, but for the listed files. -/
def Index.Covered (index : Index) (except : List Key) (asked : List String) : Prop :=
  ∀ key f, index.file? key = some f → f.isLibrary = false → key ∉ except →
    ∀ name ∈ f.libraryNames, name ∈ asked

/-- No library imports libraries. -/
def Index.Plain (index : Index) : Prop :=
  ∀ key f, index.file? key = some f → f.isLibrary = true → f.libraryNames = []

/-- The table files that came in between two indexes, but for the one with the given key. -/
def newTables (before after : Index) (own : Key) : List Key :=
  (after.files.filter fun f => !f.isLibrary && !before.contains f.key && f.key ≠ own).map (·.key)

namespace Progress

/-- The names of the last request: that of the operation, or the one before. -/
def asked (p : Progress) (before : List String) : List String :=
  match p.task? with
  | some task => task.names
  | none => before

/-- A refresh asks for the libraries of all files that are indexed. -/
def except (p : Progress) (before : List Key) : List Key :=
  match p.task? with
  | some ⟨_, .refresh _⟩ => []
  | _ => before

end Progress

/-- A session, the names of the last request, and the files that an update of another file has loaded
since. -/
structure Account where
  session : Session
  asked : List String := []
  brought : List Key := []

namespace Account

/-- The files that updates of others have loaded, before a request of the move is seen to. With the index
of a reload they are gone. -/
def loaded (a : Account) (storage : Storage) : Move → List Key
  | .call c =>
    match a.session.workspace.written? storage c with
    | some (path, _) =>
      a.brought ++ newTables a.session.workspace.index
        (a.session.progress storage (.call c)).workspace.index path.key
    | none => a.brought
  | .answer _ =>
    match a.session.waiting with
    | some ⟨_, .reload _ _⟩ => []
    | _ => a.brought

/-- The account after a move. -/
def next (a : Account) (storage : Storage) (move : Move) : Account where
  session := a.session.next storage move
  asked := (a.session.progress storage move).asked a.asked
  brought := (a.session.progress storage move).except (a.loaded storage move)

/-- While the generator runs, a call is made only if it is done at once. -/
def Allows (a : Account) (storage : Storage) : Move → Prop
  | .call c => a.session.waiting = none ∨ (a.session.progress storage (.call c)).task? = none
  | .answer _ => a.session.waiting ≠ none

/-- What a reload of a workspace comes to in which nothing runs. -/
inductive Reachable : Account → Prop where
  | start {w : Workspace} {storage : Storage} (hreloads : w.reloads = .idle)
      (hrefreshes : w.refreshes = .idle) (hstaged : w.staged = none) :
    Reachable (next { session := { workspace := w } } storage (.call .reload))
  | next {a : Account} {storage : Storage} {move : Move} (h : Reachable a)
      (hmove : a.Allows storage move) :
    Reachable (a.next storage move)

end Account

/-! ## Libraries of an index -/

theorem mem_of_sameElements {as bs : List String} (h : sameElements as bs = true) {a : String} :
    a ∈ as ↔ a ∈ bs := by
  simp only [sameElements, Bool.and_eq_true, List.all_eq_true, List.contains_iff_mem] at h
  exact ⟨h.1 a, h.2 a⟩

namespace Index

variable {index later : Index} {except : List Key} {asked : List String}

/-- The needed libraries cover the index. -/
theorem covered_needed (w : Workspace) (index : Index) : index.Covered [] (w.needed index) := by
  intro key f hfile hf _ name hname
  have hmem := (mem_of_file? hfile).1
  refine mem_distinct.mpr (List.mem_cons_of_mem _ (mem_distinct.mpr ?_))
  exact List.mem_flatMap.mpr ⟨f, List.mem_filter.mpr ⟨hmem, by simp [hf]⟩, hname⟩

theorem Covered.of_subset (h : index.Covered except asked)
    (hlater : ∀ key f, later.file? key = some f → f.isLibrary = false → index.file? key = some f) :
    later.Covered except asked :=
  fun key f hfile hf => h key f (hlater key f hfile hf) hf

theorem Covered.mono (h : index.Covered except asked) {more : List Key} :
    index.Covered (except ++ more) asked :=
  fun key f hfile hf hkey => h key f hfile hf fun hmem => hkey (List.mem_append_left _ hmem)

theorem Plain.of_subset (h : index.Plain)
    (hlater : ∀ key f, later.file? key = some f → index.file? key = some f) : later.Plain :=
  fun key f hfile => h key f (hlater key f hfile)

theorem Plain.add (h : index.Plain) {f : SourceFile} (hf : f.isLibrary = false) :
    (index.add f).Plain := by
  intro key g hfile hg
  rw [file?_add] at hfile
  split at hfile
  · obtain rfl := Option.some.inj hfile
    rw [hf] at hg
    cases hg
  · exact h key g hfile hg

theorem Plain.install (h : index.Plain) {loaded : List LoadedLibrary}
    (hloaded : ∀ library ∈ loaded, library.outline.libraries = []) : (index.install loaded).Plain := by
  intro key f hfile hf
  rcases file?_install_cases hfile with hfile | ⟨library, hlibrary, rfl⟩
  · exact h key f hfile hf
  · simp [SourceFile.libraryNames, SourceFile.ofLibrary, SourceFile.ofOutline, hloaded library hlibrary]

/-- Filling in missing files and linking keeps libraries plain. -/
theorem Plain.of_fills {l : Loader} (h : index.Plain) {key : Key} {f? : Option SourceFile}
    (hf : l.Fills index key f?) (hlater : later.unlinked? key = f?.map SourceFile.unlinked)
    {f : SourceFile} (hfile : later.file? key = some f) (hlibrary : f.isLibrary = true) :
    f.libraryNames = [] := by
  rcases hf.of_file? hlater hfile with ⟨g, hold, hsame, hnames⟩ | ⟨-, htable⟩
  · rw [← hnames]
    exact h key g hold (hsame.trans hlibrary)
  · rw [htable] at hlibrary
    cases hlibrary

end Index

namespace Workspace

variable {w : Workspace} {storage : Storage} {path : Path} {content : List Char} {index : Index}
  {except : List Key} {asked : List String}

theorem plain_staging (w : Workspace) (storage : Storage) : (w.staging storage).Plain := by
  intro key f hfile hf
  have hadd : ∀ index path f, (w.loader storage).Finds path f → Index.Plain index →
      (index.add f).Plain := fun _ _ _ hf h => h.add hf.isLibrary_eq
  have hscanned : (scanRoots (w.loader storage) w.roots {}).1.Plain :=
    scanRoots_induction hadd w.roots fun _ _ hfile => by cases hfile
  obtain ⟨f?, hfills, hlater⟩ := (w.loader storage).unlinked?_resolveImports
    (scanRoots (w.loader storage) w.roots {}).1 key
  exact hscanned.of_fills hfills hlater hfile hf

theorem plain_updated (h : index.Plain) : (w.updated storage path content index).Plain := by
  intro key f hfile hf
  by_cases hkey : key = path.key
  · subst hkey
    have hself := unlinked?_updated_self w storage path content index
    rw [Index.unlinked?, hfile, Option.map_some] at hself
    rw [← f.unlinked_isLibrary, Option.some.inj hself] at hf
    cases hf
  · obtain ⟨f?, hfills, hlater⟩ := unlinked?_updated_of_ne w storage content index hkey
    exact h.of_fills hfills hlater hfile hf

theorem plain_applyEvent (h : index.Plain) (event : FileEvent) :
    (w.applyEvent storage index event).Plain := by
  cases event with
  | update path content =>
    change (w.applyUpdate storage path content index).1.Plain
    cases haccepts : w.accepts path content with
    | true =>
      rw [applyUpdate_of_accepts storage index haccepts]
      exact plain_updated h
    | false => exact h.of_subset fun _ _ hfile => file?_of_rejects haccepts hfile
  | remove path => exact h.of_subset fun _ _ hfile => Index.file?_of_reset hfile

theorem plain_replay (h : index.Plain) : (w.replay storage index).Plain :=
  List.foldlRecOn (motive := Index.Plain) _ _ h fun _ h event _ => plain_applyEvent h event

/-- Library documents have no imports. -/
theorem libraries_of_parse {document : List Char} {outline : Outline}
    (h : Libdoc.parse? document = some outline) : outline.libraries = [] := by
  unfold Libdoc.parse? Libdoc.outline? at h
  cases hkeywords : Libdoc.keywordsOf (Xml.read document) with
  | error fault => simp [hkeywords, Except.map] at h
  | ok keywords? =>
    simp only [hkeywords, Except.map, Option.map_eq_some_iff] at h
    obtain ⟨keywords, -, rfl⟩ := h
    rfl

theorem libraries_of_takeIn {names : List String} {acquisition : Acquisition} {library : LoadedLibrary}
    (h : library ∈ (w.takeIn storage names acquisition).2) : library.outline.libraries = [] := by
  -- a library is loaded from an entry whose document can be read and parsed
  simp only [takeIn, LibraryCache.load, List.mem_filterMap, List.mem_map] at h
  obtain ⟨_, ⟨e, -, rfl⟩, hloaded⟩ := h
  unfold LibraryCache.loadEntry at hloaded
  split at hloaded
  · next document _ =>
    split at hloaded
    · next outline hread =>
      obtain rfl := Option.some.inj hloaded
      unfold LibraryCache.readDocument at hread
      split at hread
      · cases hread
      · split at hread
        · next found hparse =>
          split at hread
          · obtain rfl := Except.ok.inj hread
            exact libraries_of_parse hparse
          · cases hread
        · cases hread
    · cases hloaded
  · cases hloaded

/-! ## Updates -/

/-- An update that does not change the imported libraries of its file leaves the index covered, but for
the files that it loads. -/
theorem covered_updated (hplain : index.Plain) (h : index.Covered except asked)
    (hsame : importsChanged (index.file? path.key) (.ofTable (Robot.parse content) path) = false) :
    (w.updated storage path content index).Covered
      (except ++ newTables index (w.updated storage path content index) path.key) asked := by
  intro key f hfile hf hkey name hname
  rw [List.mem_append, not_or] at hkey
  by_cases hown : key = path.key
  · subst hown
    have hself := unlinked?_updated_self w storage path content index
    rw [Index.unlinked?, hfile, Option.map_some, Option.some.injEq] at hself
    rw [← f.unlinked_libraryNames, hself] at hname
    unfold importsChanged at hsame
    rw [Bool.not_eq_false'] at hsame
    cases hprevious : index.file? path.key with
    | none =>
      rw [hprevious] at hsame
      cases (mem_of_sameElements hsame).mpr hname
    | some previous =>
      -- the record before had the same libraries; as a library it had none
      rw [hprevious] at hsame
      have hbefore : name ∈ previous.libraryNames := (mem_of_sameElements hsame).mpr hname
      cases hlibrary : previous.isLibrary with
      | false => exact h _ previous hprevious hlibrary hkey.1 name hbefore
      | true =>
        rw [hplain _ previous hprevious hlibrary] at hbefore
        cases hbefore
  · obtain ⟨f?, hfills, hlater⟩ := unlinked?_updated_of_ne w storage content index hown
    rcases hfills.of_file? hlater hfile with ⟨g, hold, hsame, hnames⟩ | ⟨hno, -⟩
    · exact h key g hold (hsame.trans hf) hkey.1 name (hnames ▸ hname)
    · -- the file was loaded for the update, and is kept account of
      refine absurd ?_ hkey.2
      obtain ⟨hmem, rfl⟩ := Index.mem_of_file? hfile
      exact List.mem_map_of_mem (List.mem_filter.mpr ⟨hmem, by simp [hf, hno, hown]⟩)

end Workspace

/-! ## The invariant -/

/-- Whether the reloads are as they have to be when a refresh is followed by this. -/
def AfterRefresh.Fits (next : AfterRefresh) (w : Workspace) : Prop :=
  match next with
  | .endReload _ => w.reloads.isRunning = true
  | .endUpdate _ => w.reloads = .idle

theorem AfterRefresh.Fits.congr {next : AfterRefresh} {w later : Workspace} (h : next.Fits w)
    (hreloads : later.reloads = w.reloads) : next.Fits later := by
  cases next with
  | endReload outcome => exact (congrArg Coalescer.isRunning hreloads).trans h
  | endUpdate key => exact hreloads.trans h

/-- Nothing runs, and the index is covered. -/
structure Workspace.Settled (w : Workspace) (asked : List String) (except : List Key) : Prop where
  reloads : w.reloads = .idle
  refreshes : w.refreshes = .idle
  staged : w.staged = none
  plain : w.index.Plain
  covered : w.index.Covered except asked

/-- A reload waits that has asked for the given names. -/
structure Workspace.Reloading (w : Workspace) (staging : Index) (names asked : List String) : Prop where
  reloads : w.reloads.isRunning = true
  refreshes : w.refreshes = .idle
  staged : w.staged ≠ none
  plain : staging.Plain
  asked : asked = names

/-- A refresh waits, and the index is covered unless another one is to follow. -/
structure Workspace.Refreshing (w : Workspace) (next : AfterRefresh) (asked : List String)
    (except : List Key) : Prop where
  fits : next.Fits w
  refreshes : w.refreshes.isRunning = true
  staged : w.staged = none
  plain : w.index.Plain
  covered : w.refreshes.isPending = false → w.index.Covered except asked

/-- What holds along every session, given the names of the last request and the files that were loaded
since. -/
def Session.Sound (s : Session) (asked : List String) (except : List Key) : Prop :=
  match s.waiting with
  | none => s.workspace.Settled asked except
  | some ⟨names, .reload staging _⟩ => s.workspace.Reloading staging names asked
  | some ⟨_, .refresh next⟩ => s.workspace.Refreshing next asked except

/-- The session in which an operation has come so far is sound. -/
def Progress.Sound (p : Progress) (asked : List String) (except : List Key) : Prop :=
  p.session.Sound (p.asked asked) (p.except except)

namespace Workspace

variable {w : Workspace} {storage : Storage} {asked : List String} {except : List Key}

theorem sound_beginReload (hreloads : w.reloads.isRunning = true) (hrefreshes : w.refreshes = .idle) :
    (w.beginReload storage).Sound asked except where
  reloads := hreloads
  refreshes := hrefreshes
  staged := by simp [beginReload, ask, Progress.session, Progress.workspace]
  plain := w.plain_staging storage
  asked := rfl

theorem sound_beginRefresh {next : AfterRefresh} (hfits : next.Fits w)
    (hrefreshes : w.refreshes.isRunning = true) (hstaged : w.staged = none) (hplain : w.index.Plain) :
    (w.beginRefresh storage next).Sound asked except where
  fits := hfits.congr rfl
  refreshes := hrefreshes
  staged := hstaged
  plain := hplain
  covered := fun _ => Index.covered_needed w w.index

theorem sound_endReload (hreloads : w.reloads.isRunning = true) (hrefreshes : w.refreshes = .idle)
    (hstaged : w.staged = none) (hplain : w.index.Plain) (hcovered : w.index.Covered except asked)
    (outcome : ReloadOutcome) : (w.endReload storage outcome).Sound asked except := by
  cases hagain : w.reloads.isPending with
  | true =>
    rw [endReload_of_again hagain]
    exact sound_beginReload (by simp [hagain, hreloads]) hrefreshes
  | false =>
    rw [endReload_of_once hagain]
    exact ⟨rfl, hrefreshes, hstaged, hplain, hcovered⟩

theorem sound_continueWith {next : AfterRefresh} (hfits : next.Fits w) (hrefreshes : w.refreshes = .idle)
    (hstaged : w.staged = none) (hplain : w.index.Plain) (hcovered : w.index.Covered except asked) :
    (w.continueWith storage next).Sound asked except := by
  cases next with
  | endReload outcome => exact sound_endReload hfits hrefreshes hstaged hplain hcovered outcome
  | endUpdate key => exact ⟨hfits, hrefreshes, hstaged, hplain, hcovered⟩

theorem sound_refresh {next : AfterRefresh} (hfits : next.Fits w) (hrefreshes : w.refreshes = .idle)
    (hstaged : w.staged = none) (hplain : w.index.Plain) :
    (w.refresh storage next).Sound asked except := by
  rw [refresh_of_not_running (by rw [hrefreshes, Coalescer.isRunning_idle])]
  exact sound_beginRefresh (hfits.congr rfl) (by simp) hstaged hplain

theorem sound_endRefresh {next : AfterRefresh} (h : w.Refreshing next asked except) :
    (w.endRefresh storage next).Sound asked except := by
  cases hagain : w.refreshes.isPending with
  | true =>
    rw [endRefresh_of_again hagain]
    exact sound_beginRefresh (h.fits.congr rfl) (by simp [hagain, h.refreshes]) h.staged h.plain
  | false =>
    rw [endRefresh_of_once hagain]
    exact sound_continueWith (h.fits.congr rfl) rfl h.staged h.plain (h.covered hagain)

theorem sound_reload (h : w.Settled asked except) : (w.reload storage).Sound asked except := by
  rw [reload_of_not_running (by rw [h.reloads, Coalescer.isRunning_idle])]
  exact sound_beginReload (by simp) h.refreshes

/-- The swap either finds that the new index needs what was asked for, or asks anew. -/
theorem sound_resume_reload {names : List String} {staging : Index} {errors : List String}
    (h : w.Reloading staging names asked) (acquisition : Acquisition) :
    (w.resume storage ⟨names, .reload staging errors⟩ acquisition).Sound asked [] := by
  have hplain : (w.replay storage (staging.install (w.takeIn storage names acquisition).2)).Plain :=
    plain_replay (h.plain.install fun _ hlibrary => libraries_of_takeIn hlibrary)
  rw [Workspace.resume_reload]
  simp only
  split
  · next hsame =>
    -- what the new index needs is what was asked for, and nothing is left out
    refine sound_endReload ?_ ?_ rfl hplain (fun key f hfile hf hkey name hname => ?_) _
    · exact h.reloads
    · exact h.refreshes
    · rw [h.asked, ← mem_of_sameElements hsame]
      exact Index.covered_needed _ _ key f hfile hf hkey name hname
  · refine sound_refresh ?_ ?_ rfl hplain
    · exact h.reloads
    · exact h.refreshes

theorem sound_resume_refresh {names : List String} {next : AfterRefresh}
    (h : w.Refreshing next asked except) (acquisition : Acquisition) :
    (w.resume storage ⟨names, .refresh next⟩ acquisition).Sound asked except := by
  rw [Workspace.resume_refresh]
  refine sound_endRefresh ⟨?_, h.refreshes, h.staged, ?_, fun hagain => ?_⟩
  · exact h.fits.congr rfl
  · exact h.plain.install fun _ hlibrary => libraries_of_takeIn hlibrary
  · exact (h.covered hagain).of_subset fun _ _ hfile hf => Index.file?_of_install hfile hf

/-! ## Calls -/

section Calls

variable {path : Path} {content : List Char} {next : AfterRefresh} {c : Call}

/-- The index that an update leaves is covered as before, but for the files that it loads, unless the
update says that libraries changed. -/
theorem covered_rejected (h : w.index.Covered except asked) (hrejects : w.accepts path content = false)
    (more : List Key) : (w.applyUpdate storage path content w.index).1.Covered (except ++ more) asked :=
  (h.of_subset fun _ _ hfile _ => file?_of_rejects hrejects hfile).mono

theorem sound_update (h : w.Settled asked except) :
    (w.updateFile storage path content).Sound asked
      (except ++ newTables w.index (w.updateFile storage path content).workspace.index path.key) := by
  cases haccepts : w.accepts path content with
  | true =>
    rw [updateFile_of_accepts haccepts]
    simp only [h.staged]
    split
    · -- the libraries changed: a refresh asks for those of the whole index
      exact sound_refresh h.reloads h.refreshes rfl (plain_updated h.plain)
    · next hsame =>
      have hsame : importsChanged (w.index.file? path.key) (.ofTable (Robot.parse content) path) =
          false := by simpa using hsame
      exact ⟨h.reloads, h.refreshes, rfl, plain_updated h.plain,
        covered_updated h.plain h.covered hsame⟩
  | false =>
    rw [updateFile_of_rejects haccepts]
    simp only [h.staged]
    exact ⟨h.reloads, h.refreshes, rfl,
      h.plain.of_subset fun _ _ hfile => file?_of_rejects haccepts hfile,
      covered_rejected h.covered haccepts _⟩

/-- While a reload waits, an update is left to it. -/
theorem Reloading.update {staging : Index} {names : List String}
    (h : w.Reloading staging names asked) (storage : Storage) (path : Path) (content : List Char) :
    ∃ later answer, w.updateFile storage path content = .done later answer ∧
      later.Reloading staging names asked := by
  obtain ⟨events, hevents⟩ := Option.ne_none_iff_exists'.mp h.staged
  obtain ⟨answer, hanswer⟩ := updateFile_of_staged hevents storage path content
  exact ⟨_, answer, hanswer, h.reloads, h.refreshes, by simp, h.plain, h.asked⟩

/-- While a refresh waits, an update that changes libraries is left to another one. -/
theorem Refreshing.update (h : w.Refreshing next asked except) (storage : Storage) (path : Path)
    (content : List Char) :
    ∃ later answer, w.updateFile storage path content = .done later answer ∧
      later.Refreshing next asked (except ++ newTables w.index later.index path.key) := by
  cases haccepts : w.accepts path content with
  | true =>
    rw [updateFile_of_accepts haccepts]
    simp only [h.staged]
    split
    · -- the libraries changed: the waiting refresh is to be followed by another one
      rw [refresh_of_running (by exact h.refreshes)]
      refine ⟨_, _, rfl, ?_, by simp, rfl, plain_updated h.plain, fun hagain => ?_⟩
      · exact h.fits.congr rfl
      · simp [h.refreshes] at hagain
    · next hsame =>
      have hsame : importsChanged (w.index.file? path.key) (.ofTable (Robot.parse content) path) =
          false := by simpa using hsame
      refine ⟨_, _, rfl, ?_, h.refreshes, rfl, plain_updated h.plain, fun hagain => ?_⟩
      · exact h.fits.congr rfl
      · exact covered_updated h.plain (h.covered hagain) hsame
  | false =>
    rw [updateFile_of_rejects haccepts]
    simp only [h.staged]
    refine ⟨_, _, rfl, ?_, h.refreshes, rfl, ?_, fun hagain => ?_⟩
    · exact h.fits.congr rfl
    · exact h.plain.of_subset fun _ _ hfile => file?_of_rejects haccepts hfile
    · exact covered_rejected (h.covered hagain) haccepts _

theorem sound_call_of_not_written (h : w.Settled asked except) (hwritten : w.written? storage c = none) :
    (w.enact storage c).Sound asked except := by
  obtain ⟨later, hindex, hreloads, hrefreshes, hstaged, henact⟩ := enact_of_not_written hwritten
  have hlater : later.Settled asked except :=
    ⟨hreloads.trans h.reloads, hrefreshes.trans h.refreshes, by simpa [h.staged] using hstaged,
      h.plain.of_subset hindex, h.covered.of_subset fun key f hfile _ => hindex key f hfile⟩
  rcases henact with henact | ⟨answer, henact⟩
  · rw [henact]
    exact sound_reload hlater
  · rw [henact]
    exact hlater

theorem Reloading.call_of_not_written {staging : Index} {names : List String}
    (h : w.Reloading staging names asked) (hwritten : w.written? storage c = none) :
    ∃ later answer, w.enact storage c = .done later answer ∧ later.Reloading staging names asked := by
  obtain ⟨later, -, hreloads, hrefreshes, hstaged, henact⟩ := enact_of_not_written hwritten
  have hstaged : later.staged ≠ none := by
    intro hnone
    rw [hnone, Option.isNone_none, eq_comm, Option.isNone_iff_eq_none] at hstaged
    exact h.staged hstaged
  have hrefreshes := hrefreshes.trans h.refreshes
  rcases henact with henact | ⟨answer, henact⟩
  · rw [henact, reload_of_running (hreloads ▸ h.reloads)]
    exact ⟨_, _, rfl, by simp, hrefreshes, hstaged, h.plain, h.asked⟩
  · exact ⟨later, answer, henact, hreloads ▸ h.reloads, hrefreshes, hstaged, h.plain, h.asked⟩

theorem Refreshing.call_of_not_written (h : w.Refreshing next asked except)
    (hwritten : w.written? storage c = none) (hdone : (w.enact storage c).task? = none) :
    ∃ later answer, w.enact storage c = .done later answer ∧ later.Refreshing next asked except := by
  obtain ⟨later, hindex, hreloads, hrefreshes, hstaged, henact⟩ := enact_of_not_written hwritten
  have hstaged : later.staged = none := by simpa [h.staged] using hstaged
  have hplain : later.index.Plain := h.plain.of_subset hindex
  have hcovered : later.refreshes.isPending = false → later.index.Covered except asked := fun hagain =>
    (h.covered (hrefreshes ▸ hagain)).of_subset fun key f hfile _ => hindex key f hfile
  rcases henact with henact | ⟨answer, henact⟩
  · cases hrunning : later.reloads.isRunning with
    | false =>
      -- such a reload waits
      rw [henact, reload_of_not_running hrunning] at hdone
      cases hdone
    | true =>
      rw [henact, reload_of_running hrunning]
      refine ⟨_, _, rfl, ?_, hrefreshes ▸ h.refreshes, hstaged, hplain, hcovered⟩
      cases next with
      | endReload outcome => simp [AfterRefresh.Fits]
      | endUpdate key =>
        rw [hreloads.trans h.fits] at hrunning
        cases hrunning
  · refine ⟨later, answer, henact, ?_, hrefreshes ▸ h.refreshes, hstaged, hplain, hcovered⟩
    exact h.fits.congr hreloads

end Calls

end Workspace

namespace Account

variable {a : Account} {storage : Storage}

/-- What holds along every session. -/
def Sound (a : Account) : Prop := a.session.Sound a.asked a.brought

theorem loaded_of_written {c : Call} {path : Path} {content : List Char}
    (h : a.session.workspace.written? storage c = some (path, content)) :
    a.loaded storage (.call c) = a.brought ++ newTables a.session.workspace.index
      (a.session.workspace.enact storage c).workspace.index path.key := by
  simp only [loaded, h]
  rfl

theorem loaded_of_not_written {c : Call} (h : a.session.workspace.written? storage c = none) :
    a.loaded storage (.call c) = a.brought := by
  simp only [loaded, h]

theorem sound_call_of_idle (h : a.Sound) (hwaiting : a.session.waiting = none) (c : Call) :
    (a.next storage (.call c)).Sound := by
  obtain ⟨⟨w, waiting⟩, asked, brought⟩ := a
  obtain rfl : waiting = none := hwaiting
  have h : w.Settled asked brought := h
  change ((Session.mk w none).next storage (.call c)).Sound ((w.enact storage c).asked asked)
    ((w.enact storage c).except (loaded ⟨⟨w, none⟩, asked, brought⟩ storage (.call c)))
  rw [Session.next_call_of_idle]
  cases hwritten : w.written? storage c with
  | none =>
    rw [loaded_of_not_written hwritten]
    exact Workspace.sound_call_of_not_written h hwritten
  | some written =>
    obtain ⟨path, content⟩ := written
    rw [loaded_of_written hwritten]
    simp only [Workspace.enact_of_written hwritten]
    exact Workspace.sound_update h

/-- A call that is done at once leaves a waiting task as sound as it was. -/
theorem sound_call_of_done {c : Call} {task : Task} {later : Workspace} {answer : Answer}
    (hwaiting : a.session.waiting = some task)
    (hdone : a.session.workspace.enact storage c = .done later answer)
    (h : (Session.mk later (some task)).Sound a.asked (a.loaded storage (.call c))) :
    (a.next storage (.call c)).Sound := by
  simp only [Sound, next, Session.next, Session.progress, hdone, hwaiting]
  exact h

theorem sound_call (h : a.Sound) {c : Call} (hmove : a.Allows storage (.call c)) :
    (a.next storage (.call c)).Sound := by
  cases hwaiting : a.session.waiting with
  | none => exact sound_call_of_idle h hwaiting c
  | some task =>
    have hdone := hmove.resolve_left (by simp [hwaiting])
    obtain ⟨names, purpose⟩ := task
    simp only [Sound, Session.Sound, hwaiting] at h
    -- a call with or without new content, while a reload or a refresh waits
    cases hwritten : a.session.workspace.written? storage c with
    | none =>
      cases purpose with
      | reload staging errors =>
        obtain ⟨later, answer, henact, hlater⟩ := h.call_of_not_written hwritten
        exact sound_call_of_done hwaiting henact hlater
      | refresh next =>
        obtain ⟨later, answer, henact, hlater⟩ := h.call_of_not_written hwritten hdone
        refine sound_call_of_done hwaiting henact ?_
        rw [loaded_of_not_written hwritten]
        exact hlater
    | some written =>
      obtain ⟨path, content⟩ := written
      have hupdate := Workspace.enact_of_written hwritten
      cases purpose with
      | reload staging errors =>
        obtain ⟨later, answer, henact, hlater⟩ := h.update storage path content
        exact sound_call_of_done hwaiting (hupdate.trans henact) hlater
      | refresh next =>
        obtain ⟨later, answer, henact, hlater⟩ := h.update storage path content
        refine sound_call_of_done hwaiting (hupdate.trans henact) ?_
        rw [loaded_of_written hwritten, hupdate, henact]
        exact hlater

theorem sound_answer (h : a.Sound) {task : Task} (hwaiting : a.session.waiting = some task)
    (acquisition : Acquisition) : (a.next storage (.answer acquisition)).Sound := by
  obtain ⟨⟨w, waiting⟩, asked, brought⟩ := a
  obtain rfl : waiting = some task := hwaiting
  obtain ⟨names, purpose⟩ := task
  cases purpose with
  | reload staging errors => exact Workspace.sound_resume_reload h acquisition
  | refresh next => exact Workspace.sound_resume_refresh h acquisition

theorem Reachable.sound (h : Reachable a) : a.Sound := by
  induction h with
  | @start w storage hreloads hrefreshes hstaged =>
    change ((Session.mk w none).next storage (.call .reload)).Sound _ _
    rw [Session.next_call_of_idle]
    change ((w.reload storage).session).Sound ((w.reload storage).asked []) ((w.reload storage).except [])
    rw [Workspace.reload_of_not_running (by rw [hreloads, Coalescer.isRunning_idle])]
    exact Workspace.sound_beginReload (by simp) hrefreshes
  | @next a storage move _ hmove ih =>
    cases move with
    | call c => exact sound_call ih hmove
    | answer acquisition =>
      obtain ⟨task, htask⟩ := Option.ne_none_iff_exists'.mp hmove
      exact sound_answer ih htask acquisition

/-- Updates are made at any time. -/
theorem Sound.allows_update (h : a.Sound) (storage : Storage) (path : Path) (content : List Char) :
    a.Allows storage (.call (.update path content)) := by
  cases hwaiting : a.session.waiting with
  | none => exact Or.inl hwaiting
  | some task =>
    refine Or.inr ?_
    obtain ⟨names, purpose⟩ := task
    simp only [Sound, Session.Sound, hwaiting] at h
    change (a.session.workspace.updateFile storage path content).task? = none
    cases purpose with
    | reload staging errors =>
      obtain ⟨later, answer, hdone, -⟩ := h.update storage path content
      rw [hdone]
      rfl
    | refresh next =>
      obtain ⟨later, answer, hdone, -⟩ := h.update storage path content
      rw [hdone]
      rfl

/-- From a reload on, whatever calls are made and whatever the generator answers, a file can be updated at
any time, also while the generator runs; and once neither a reload nor a refresh runs or is to run, every
library that an indexed table file imports was among the names of the last request, but for the files that
an update of another file has loaded since. -/
theorem libraries_asked (h : Reachable a) :
    (∀ storage path content, a.Allows storage (.call (.update path content))) ∧
    (a.session.workspace.reloads = .idle → a.session.workspace.refreshes = .idle →
      ∀ key f, a.session.workspace.index.file? key = some f → f.isLibrary = false →
        key ∉ a.brought → ∀ name ∈ f.libraryNames, name ∈ a.asked) := by
  refine ⟨h.sound.allows_update, fun hreloads hrefreshes => ?_⟩
  have hsound := h.sound
  cases hwaiting : a.session.waiting with
  | none =>
    simp only [Sound, Session.Sound, hwaiting] at hsound
    exact hsound.covered
  | some task =>
    obtain ⟨names, purpose⟩ := task
    simp only [Sound, Session.Sound, hwaiting] at hsound
    cases purpose with
    -- a waiting task has set one of the coalescers
    | reload staging errors =>
      have hrunning := hsound.reloads
      rw [hreloads] at hrunning
      cases hrunning
    | refresh next =>
      have hrunning := hsound.refreshes
      rw [hrefreshes] at hrunning
      cases hrunning

/-- A file that imports a library and lies in no project. -/
def oneFile : Storage :=
  (({} : MemoryStorage).write ⟨"/q/m.robot"⟩
    (Text.encode "*** Settings ***\nLibrary    Extra\n".toList)).toStorage

/-- A reload of no projects waits. -/
def reloading : Account := next { session := { workspace := .vacant } } oneFile (.call .reload)

theorem reachable_reloading : Reachable reloading := .start rfl rfl rfl

/-- While it waits, a file comes to import a library, and the swap asks for it. -/
def settled : Account :=
  let updated := reloading.next oneFile
    (.call (.update ⟨"/p/a.robot"⟩ "*** Settings ***\nLibrary    Extra\n".toList))
  (updated.next oneFile (.answer ⟨[], {}⟩)).next oneFile (.answer ⟨[], {}⟩)

theorem libraries_of_settled :
    ∃ f, settled.session.workspace.index.file? ⟨"/p/a.robot"⟩ = some f ∧
      "Extra" ∈ f.libraryNames ∧ "Extra" ∈ settled.asked := by
  have hreachable : Reachable settled := by
    refine .next (.next (.next reachable_reloading ?_) ?_) ?_
    · exact reachable_reloading.sound.allows_update _ _ _
    · exact Option.isSome_iff_ne_none.mp (by decide +kernel)
    · exact Option.isSome_iff_ne_none.mp (by decide +kernel)
  have hrun : settled.session.workspace.reloads = .idle ∧ settled.session.workspace.refreshes = .idle ∧
      ⟨"/p/a.robot"⟩ ∉ settled.brought ∧
      (settled.session.workspace.index.file? ⟨"/p/a.robot"⟩).any (fun f =>
        !f.isLibrary && decide ("Extra" ∈ f.libraryNames)) = true := by
    decide +kernel
  obtain ⟨hreloads, hrefreshes, hbrought, hfound⟩ := hrun
  obtain ⟨f, hfile, h⟩ := (Option.any_eq_true _ _).mp hfound
  simp only [Bool.and_eq_true, Bool.not_eq_true', decide_eq_true_eq] at h
  exact ⟨f, hfile, h.2,
    (libraries_asked hreachable).2 hreloads hrefreshes _ f hfile h.1 hbrought _ h.2⟩

/-- After it, a file comes to import the one that imports a library. -/
def overlooked : Account :=
  (reloading.next oneFile (.answer ⟨[], {}⟩)).next oneFile
    (.call (.update ⟨"/p/a.robot"⟩ "*** Settings ***\nResource    ../q/m.robot\n".toList))

/-- Nobody has asked for the library of the file that was loaded for the update. -/
theorem overlooked_unasked :
    Reachable overlooked ∧ overlooked.session.workspace.reloads = .idle ∧
      overlooked.session.workspace.refreshes = .idle ∧
      ∃ f, overlooked.session.workspace.index.file? ⟨"/q/m.robot"⟩ = some f ∧ f.isLibrary = false ∧
        "Extra" ∈ f.libraryNames ∧ "Extra" ∉ overlooked.asked := by
  have hrun : overlooked.session.workspace.reloads = .idle ∧
      overlooked.session.workspace.refreshes = .idle ∧ "Extra" ∉ overlooked.asked ∧
      (overlooked.session.workspace.index.file? ⟨"/q/m.robot"⟩).any (fun f =>
        !f.isLibrary && decide ("Extra" ∈ f.libraryNames)) = true := by
    decide +kernel
  obtain ⟨hreloads, hrefreshes, hasked, hfound⟩ := hrun
  obtain ⟨f, hfile, h⟩ := (Option.any_eq_true _ _).mp hfound
  simp only [Bool.and_eq_true, Bool.not_eq_true', decide_eq_true_eq] at h
  refine ⟨.next (.next reachable_reloading ?_) (Or.inl ?_), hreloads, hrefreshes, f, hfile, h.1, h.2,
    hasked⟩
  · exact Option.isSome_iff_ne_none.mp (by decide +kernel)
  · exact Option.isNone_iff_eq_none.mp (by decide +kernel)

end Account

end KeywordIndex
