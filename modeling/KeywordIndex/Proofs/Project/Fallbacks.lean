import KeywordIndex.Proofs.Library.Merging
import KeywordIndex.Proofs.Project.Agreement

namespace KeywordIndex

/-! # Which fallbacks are served

Whenever the generator has been asked, the registered fallbacks are the documents that come with the program
followed by those of the last scan (`Session.Reachable.registers`). A library with a fallback that can be
read is served, unless a success that was cached or reported stands in its way: one whose document cannot be
read, or that has none (`Session.fallback_served_iff`). For fallbacks stand in before documents are read, and
only for what is no success (`Session.fallback_passed_over`).
-/

/-- The library is cached as a success and is among the loaded ones. -/
def Served (cache : LibraryCache) (loaded : List LoadedLibrary) (name : String) : Prop :=
  (∃ e, cache.entry? name = some e ∧ e.isSuccess = true) ∧ ∃ library ∈ loaded, library.name = name

/-- The library has a document that can be read and has keywords. -/
def LibraryEntry.Readable (storage : Storage) (e : LibraryEntry) : Prop :=
  ∃ document outline, e.document = some document ∧
    LibraryCache.readDocument storage document = .ok outline

namespace LibraryCache

variable {c : LibraryCache} {storage : Storage} {name : String} {asked : List String}
  {acquisition : Acquisition}

/-- A library is served if the entry whose document is read is a success with a readable one. -/
theorem served_load_iff (h : c.names.Nodup) (storage : Storage) (name : String) :
    Served (c.load storage).1 (c.load storage).2 name ↔
      ∃ e, c.entry? name = some e ∧ e.isSuccess = true ∧ e.Readable storage := by
  have hentry : LibraryCache.entry? (c.load storage).1 name = afterReading storage (c.entry? name) :=
    entry?_load c storage name
  constructor
  · rintro ⟨-, library, hloaded, rfl⟩
    obtain ⟨e, he, hname, hdocument, hread⟩ := exists_entry_of_mem_load hloaded
    have hfound : LibraryCache.entry? (c.load storage).1 e.name = some e :=
      entry?_of_mem (by rwa [names_load]) he
    rw [hname, hentry, afterReading, Option.map_eq_some_iff] at hfound
    obtain ⟨before, hbefore, rfl⟩ := hfound
    rcases loadEntry_cases storage before with ⟨found, outline, hfound, hread, hkept⟩ | ⟨-, hnone⟩
    · exact ⟨before, hbefore, hfound.1, found, outline, hfound.2, hread⟩
    · exact absurd hdocument (hnone _)
  · rintro ⟨e, he, hsuccess, document, outline, hdocument, hread⟩
    have hkept : loadEntry storage e = (e, some ⟨e.name, document, e.source, outline⟩) := by
      simp only [loadEntry, hsuccess, hdocument, hread]
    have hafter : LibraryCache.entry? (c.load storage).1 name = some e := by
      rw [hentry, he, afterReading, Option.map_some, hkept]
    refine ⟨⟨e, hafter, hsuccess⟩, ?_⟩
    obtain ⟨library, hloaded, hname, -⟩ :=
      exists_mem_load_of_entry (List.mem_of_find?_eq_some hafter) ⟨hsuccess, hdocument⟩
    exact ⟨library, hloaded, hname.trans (name_eq_of_found he)⟩

/-- A round serves a library with a readable fallback exactly if its last success, if there is one, can be
read too. -/
theorem served_round_iff (h : c.names.Nodup) (hname : name ∈ asked) {document : Path}
    {outline : Outline} (hfallback : c.fallback? name = some document)
    (hread : readDocument storage document = .ok outline) :
    Served (c.round storage asked acquisition).1 (c.round storage asked acquisition).2 name ↔
      ∀ e failures, LastSuccess (reportsOn acquisition.libraries name) (c.entry? name) e failures →
        e.Readable storage := by
  have hnodup : ((c.apply acquisition).1.applyFallbacks asked).names.Nodup :=
    (grows_round c asked acquisition).nodup h
  have happlied : LibraryCache.entry? ((c.apply acquisition).1.applyFallbacks asked) name =
      afterFallback name (some document)
        (afterReports acquisition.libraries name (c.entry? name)) := by
    rw [entry?_applied, standIn?, if_pos hname, hfallback]
  rw [round, served_load_iff hnodup, happlied]
  by_cases hlast : ∃ e failures,
      LastSuccess (reportsOn acquisition.libraries name) (c.entry? name) e failures
  · -- a success keeps the fallback out, so all depends on its own document
    have hkept : ∀ e failures,
        LastSuccess (reportsOn acquisition.libraries name) (c.entry? name) e failures →
        afterFallback name (some document)
          (afterReports acquisition.libraries name (c.entry? name)) =
            some (e.noting failures.getLast?) := by
      intro e failures h
      rw [afterReports_of_lastSuccess h]
      exact afterFallback_of_success (by simpa using h.isSuccess)
    constructor
    · rintro ⟨found, hfound, -, hreadable⟩ e failures h
      rw [hkept e failures h] at hfound
      obtain rfl := Option.some.inj hfound
      simpa [LibraryEntry.Readable] using hreadable
    · intro hreadable
      obtain ⟨e, failures, h⟩ := hlast
      refine ⟨_, hkept e failures h, by simpa using h.isSuccess, ?_⟩
      simpa [LibraryEntry.Readable] using hreadable e failures h
  · -- without a success the fallback stands in
    have hno := (afterReports_of_failures fun h => hlast (exists_lastSuccess h)).1
    rw [afterFallback_of_failure hno]
    refine iff_of_true ⟨_, rfl, rfl, document, outline, rfl, hread⟩ fun e failures h => ?_
    exact absurd ⟨e, failures, h⟩ hlast

end LibraryCache

/-! ## Registered documents -/

namespace Workspace

variable {w later : Workspace}

/-- The registered fallbacks are the documents that came with the program when the generator was last
asked, followed by those of the last scan. -/
def Registers (w : Workspace) : Prop :=
  ∃ disk : Storage, w.cache.fallbacks =
    (w.bundledDocuments disk ++ w.projectDocuments).foldl LibraryCache.register []

theorem registers_ask (w : Workspace) (storage : Storage) (task : Task) :
    (w.ask storage task).workspace.Registers := by
  refine ⟨storage, ?_⟩
  change (w.cache.prepared _ _ _).fallbacks = (w.bundledDocuments storage ++ w.projectDocuments).foldl _ _
  rw [LibraryCache.prepared_eq, List.foldl_append]

theorem Registers.congr (h : w.Registers) (hsettings : later.settings = w.settings)
    (hdocuments : later.projectDocuments = w.projectDocuments)
    (hfallbacks : later.cache.fallbacks = w.cache.fallbacks) : later.Registers := by
  obtain ⟨disk, hdisk⟩ := h
  refine ⟨disk, ?_⟩
  have hbundled : later.bundledDocuments disk = w.bundledDocuments disk := by
    simp only [bundledDocuments, hsettings]
  rw [hfallbacks, hbundled, hdocuments, hdisk]

theorem covers_registers (storage : Storage) {w : Workspace} (h : w.Registers) :
    Covers (fun p => p.workspace.Registers) storage w where
  done _ _ _ := h.congr rfl rfl rfl
  beginReload _ _ := registers_ask _ _ _
  beginRefresh _ _ _ := registers_ask _ _ _

end Workspace

namespace Session

variable {s : Session}

theorem Reachable.registers (h : s.Reachable) : s.workspace.Registers := by
  refine h.workspace_induction (motive := Workspace.Registers) (fun settings patterns => ?_)
    (fun w storage c hw => ?_) fun w storage task acquisition hw => ?_
  · -- nothing is registered yet, as with a disk that cannot be read
    refine ⟨MemoryStorage.toStorage {}, ?_⟩
    unfold Workspace.bundledDocuments
    cases settings.fallbackDirectory <;> rfl
  · exact Workspace.enact_cases (fun later hlater => Workspace.covers_registers storage
      (hw.congr hlater.settings hlater.projectDocuments (congrArg _ hlater.cache))) c
  · have hround := LibraryCache.fallbacks_round w.cache storage task.names acquisition
    exact Workspace.resume_cases task acquisition
      (fun _ _ _ => Workspace.covers_registers storage (hw.congr rfl rfl hround))
      fun _ _ => Workspace.covers_registers storage (hw.congr rfl rfl hround)

/-- Whatever happened before and whatever is answered: when the answer to a request is taken in, the
registered fallback of a library is the last document named for it among those that come with the program
and those of the last scan. If it can be read, a library that was asked for is served exactly if the last
success that was reported on it, or else cached, can be read too, where there is one. When that ends the
reload or the refresh, this is the cache of the workspace. -/
theorem fallback_served_iff (h : s.Reachable) {task : Task} (hwaiting : s.waiting = some task)
    (storage : Storage) (acquisition : Acquisition) :
    let taken := s.workspace.takeIn storage task.names acquisition
    let later := s.next storage (.answer acquisition)
    (∃ disk, ∀ name, s.workspace.cache.fallback? name =
      lastNamed? (s.workspace.bundledDocuments disk ++ s.workspace.projectDocuments) name) ∧
    (∀ name ∈ task.names, ∀ document outline, s.workspace.cache.fallback? name = some document →
      LibraryCache.readDocument storage document = .ok outline →
      (Served taken.1.cache taken.2 name ↔
        ∀ e failures, LastSuccess (reportsOn acquisition.libraries name)
          (s.workspace.cache.entry? name) e failures → e.Readable storage)) ∧
    (later.waiting = none → later.workspace.cache = taken.1.cache) := by
  intro taken later
  refine ⟨?_, fun name hname document outline hfallback hread => ?_, fun hdone => ?_⟩
  · obtain ⟨disk, hdisk⟩ := h.registers
    refine ⟨disk, fun name => ?_⟩
    rw [LibraryCache.fallback?, hdisk, LibraryCache.lookup_foldl_register]
    exact Option.or_none
  · exact LibraryCache.served_round_iff h.nodup_names hname hfallback hread
  · have hlater : later = (s.workspace.resume storage task acquisition).session := by
      simp only [later, next, progress, hwaiting]
    rw [hlater] at hdone ⊢
    exact s.workspace.keeps_resume storage task acquisition hdone

/-- The generator fails for the first time, and the bundled document is served. -/
theorem fallback_served_asked :
    asked.Reachable ∧ ∃ task, asked.waiting = some task ∧ "BuiltIn" ∈ task.names ∧
      asked.workspace.cache.fallback? "BuiltIn" = some ⟨"/bundled/BuiltIn.xml"⟩ ∧
      let taken := asked.workspace.takeIn generated.toStorage task.names ⟨[.failed "BuiltIn" "timeout"], {}⟩
      Served taken.1.cache taken.2 "BuiltIn" := by
  have hreachable : asked.Reachable := .next (.start ofSettings_places) (Or.inl rfl)
  have hrun : asked.waiting.map (·.names) = some ["BuiltIn"] ∧
      asked.workspace.cache.fallback? "BuiltIn" = some ⟨"/bundled/BuiltIn.xml"⟩ ∧
      asked.workspace.cache.entry? "BuiltIn" = none ∧
      (LibraryCache.readDocument generated.toStorage ⟨"/bundled/BuiltIn.xml"⟩).toBool = true := by
    decide +kernel
  obtain ⟨hnames, hfallback, hentry, hread⟩ := hrun
  obtain ⟨task, hwaiting, hnames⟩ := Option.map_eq_some_iff.mp hnames
  have hmem : "BuiltIn" ∈ task.names := by simp [hnames]
  obtain ⟨-, hserved, -⟩ := fallback_served_iff hreachable hwaiting generated.toStorage
    ⟨[.failed "BuiltIn" "timeout"], {}⟩
  refine ⟨hreachable, task, hwaiting, hmem, hfallback, ?_⟩
  cases hdocument : LibraryCache.readDocument generated.toStorage ⟨"/bundled/BuiltIn.xml"⟩ with
  | error message => simp [hdocument, Except.toBool] at hread
  | ok outline =>
    refine (hserved _ hmem _ _ hfallback hdocument).mpr fun e failures hlast => ?_
    -- the failure is all that is known of the library
    rw [hentry] at hlast
    cases hlast with
    | reported hreports hsuccess _ =>
      have hmem : e ∈ reportsOn [.failed "BuiltIn" "timeout"] "BuiltIn" := by simp [hreports]
      obtain ⟨rfl, -⟩ : e = .failed "BuiltIn" "timeout" ∧ e.name = "BuiltIn" := by
        simpa [reportsOn] using hmem
      cases hsuccess
    | cached hcached _ _ => cases hcached

/-- The generated document is gone, and the generator is to run again. -/
def renewed : Session := acquired.next bundled.toStorage (.call .reload)

/-- The generator fails, and the registered fallback can be read; but as the document of the cached success
cannot, the library is not served. -/
theorem fallback_passed_over :
    renewed.Reachable ∧ ∃ task, renewed.waiting = some task ∧ "BuiltIn" ∈ task.names ∧
      renewed.workspace.cache.fallback? "BuiltIn" = some ⟨"/bundled/BuiltIn.xml"⟩ ∧
      (∃ outline,
        LibraryCache.readDocument bundled.toStorage ⟨"/bundled/BuiltIn.xml"⟩ = .ok outline) ∧
      let answer := (renewed.workspace.request task).acquire noGenerator
      let taken := renewed.workspace.takeIn bundled.toStorage task.names answer
      ¬ Served taken.1.cache taken.2 "BuiltIn" := by
  have hidle : acquired.waiting = none := by
    rw [← Option.isNone_iff_eq_none]
    decide +kernel
  have hreachable : renewed.Reachable := .next reachable_acquired (Or.inl hidle)
  have hrun : renewed.waiting.map (·.names) = some ["BuiltIn"] ∧
      renewed.workspace.cache.fallback? "BuiltIn" = some ⟨"/bundled/BuiltIn.xml"⟩ ∧
      (LibraryCache.readDocument bundled.toStorage ⟨"/bundled/BuiltIn.xml"⟩).toBool = true ∧
      renewed.waiting.any (fun task =>
        (renewed.workspace.takeIn bundled.toStorage task.names
          ((renewed.workspace.request task).acquire noGenerator)).2.isEmpty) = true := by
    decide +kernel
  obtain ⟨hnames, hfallback, hread, hloaded⟩ := hrun
  obtain ⟨task, hwaiting, hnames⟩ := Option.map_eq_some_iff.mp hnames
  refine ⟨hreachable, task, hwaiting, by simp [hnames], hfallback, ?_, ?_⟩
  · cases hdocument : LibraryCache.readDocument bundled.toStorage ⟨"/bundled/BuiltIn.xml"⟩ with
    | error message => simp [hdocument, Except.toBool] at hread
    | ok outline => exact ⟨outline, rfl⟩
  · -- nothing at all is loaded
    intro answer taken hserved
    obtain ⟨-, library, hmem, -⟩ := hserved
    simp only [hwaiting, Option.any_some, List.isEmpty_iff] at hloaded
    rw [show taken.2 = [] from hloaded] at hmem
    cases hmem

end Session

end KeywordIndex
