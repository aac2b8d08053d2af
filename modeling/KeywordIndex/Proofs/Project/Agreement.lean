import KeywordIndex.Proofs.Project.Idempotence

namespace KeywordIndex

/-! # The cache and the index tell the same

The library cache and the index are changed in separate steps: a round of the cache reads the documents of
all successes, and the libraries that it has loaded replace those of the index. What is loaded are exactly
the successes with a document that the round leaves (`LibraryCache.exists_entry_of_mem_load`,
`LibraryCache.exists_mem_load_of_entry`), and what an installation leaves of libraries are exactly the
loaded ones (`Index.exists_loaded_of_install`, `Index.exists_file?_install`). So the two agree after a
refresh, and after a reload unless events are replayed on its index (`libraries_agree`).
-/

/-- What a keyword was declared as. -/
def Keyword.declaration (k : Keyword) : Declaration :=
  ⟨k.name, k.documentation, k.arguments, k.position⟩

/-- The library is a success and has the document. -/
def LibraryEntry.HasDocument (e : LibraryEntry) (document : Path) : Prop :=
  e.isSuccess = true ∧ e.document = some document

/-- At the path is a library document with the outline. -/
def Storage.Documents (storage : Storage) (document : Path) (outline : Outline) : Prop :=
  ∃ text, storage.readText document = .ok text ∧ Libdoc.parse? text = some outline

/-- The index has the records of exactly the libraries that the cache has documents of, with the keywords
that they declare, and each document declares some. -/
structure LibrariesAgree (storage : Storage) (cache : LibraryCache) (index : Index) : Prop where
  recorded : ∀ key, (∃ f, index.file? key = some f ∧ f.isLibrary = true) ↔
    ∃ e ∈ cache.entries, Key.ofText e.name = key ∧ ∃ document, e.HasDocument document
  keywords : ∀ key f, index.file? key = some f → f.isLibrary = true →
    ∃ e ∈ cache.entries, Key.ofText e.name = key ∧ ∃ document outline, e.HasDocument document ∧
      storage.Documents document outline ∧ f.keywords.map Keyword.declaration = outline.keywords
  documents : ∀ e ∈ cache.entries, ∀ document, e.HasDocument document →
    ∃ outline, storage.Documents document outline ∧ outline.keywords ≠ []

namespace LibraryCache

variable {c : LibraryCache} {storage : Storage}

/-! ## What is loaded -/

theorem documents_of_readDocument {document : Path} {outline : Outline}
    (h : readDocument storage document = .ok outline) :
    storage.Documents document outline ∧ outline.keywords ≠ [] := by
  unfold readDocument at h
  split at h
  · cases h
  · next text htext =>
    split at h
    · next found hparse =>
      split at h
      · next hkeywords =>
        obtain rfl := Except.ok.inj h
        refine ⟨⟨text, htext, hparse⟩, ?_⟩
        intro hnone
        simp [Outline.hasKeywords, hnone] at hkeywords
      · cases h
    · cases h

/-- An entry is loaded from its document and stays as it is, or has no document afterwards. -/
theorem loadEntry_cases (storage : Storage) (e : LibraryEntry) :
    (∃ document outline, e.HasDocument document ∧ readDocument storage document = .ok outline ∧
      loadEntry storage e = (e, some ⟨e.name, document, e.source, outline⟩)) ∨
    ((loadEntry storage e).2 = none ∧ ∀ document, ¬ (loadEntry storage e).1.HasDocument document) := by
  unfold loadEntry
  split
  · next document hsuccess hdocument =>
    split
    · next outline hread => exact Or.inl ⟨document, outline, ⟨hsuccess, hdocument⟩, hread, rfl⟩
    · right
      refine ⟨rfl, fun document h => ?_⟩
      cases h.1
  · next hnone =>
    right
    exact ⟨rfl, fun document h => hnone document h.1 h.2⟩

/-- What is loaded comes from the document of an entry that reading has left. -/
theorem exists_entry_of_mem_load {library : LoadedLibrary} (h : library ∈ (c.load storage).2) :
    ∃ e ∈ (c.load storage).1.entries, e.name = library.name ∧ e.HasDocument library.document ∧
      readDocument storage library.document = .ok library.outline := by
  simp only [load, List.mem_filterMap, List.mem_map] at h ⊢
  obtain ⟨_, ⟨e, he, rfl⟩, hloaded⟩ := h
  rcases loadEntry_cases storage e with ⟨document, outline, hdocument, hread, hentry⟩ | ⟨hnone, -⟩
  · rw [hentry] at hloaded
    obtain rfl := Option.some.inj hloaded
    exact ⟨e, ⟨_, ⟨e, he, rfl⟩, by rw [hentry]⟩, rfl, hdocument, hread⟩
  · rw [hnone] at hloaded
    cases hloaded

/-- Every entry that reading has left with a document is loaded from it. -/
theorem exists_mem_load_of_entry {e : LibraryEntry} (he : e ∈ (c.load storage).1.entries)
    {document : Path} (h : e.HasDocument document) :
    ∃ library ∈ (c.load storage).2, library.name = e.name ∧ library.document = document ∧
      readDocument storage document = .ok library.outline := by
  simp only [load, List.mem_filterMap, List.mem_map] at he ⊢
  obtain ⟨_, ⟨e, he, rfl⟩, rfl⟩ := he
  rcases loadEntry_cases storage e with ⟨found, outline, hfound, hread, hentry⟩ | ⟨-, hnone⟩
  · rw [hentry] at h ⊢
    obtain rfl : found = document := Option.some.inj (hfound.2.symm.trans h.2)
    exact ⟨_, ⟨_, ⟨e, he, rfl⟩, by rw [hentry]⟩, rfl, rfl, hread⟩
  · exact absurd h (hnone document)

end LibraryCache

/-! ## What is installed -/

theorem map_declaration_keywordsFrom (file : Key) (isLocal : Bool) (ordinal : Nat)
    (declared : List Declaration) :
    (keywordsFrom file isLocal ordinal declared).map Keyword.declaration = declared := by
  induction declared generalizing ordinal with
  | nil => rfl
  | cons d rest ih => exact congrArg (d :: ·) (ih (ordinal + 1))

/-- The record of a loaded library. -/
def LoadedLibrary.record (library : LoadedLibrary) : SourceFile :=
  .ofLibrary library.outline library.name (some library.document) library.source

namespace Index

variable {index : Index} {loaded : List LoadedLibrary} {key : Key}

theorem file?_foldl_remove (keys : List Key) (index : Index) (key : Key) :
    (keys.foldl Index.remove index).file? key = if key ∈ keys then none else index.file? key := by
  induction keys generalizing index with
  | nil => rfl
  | cons first rest ih =>
    rw [List.foldl_cons, ih, file?_remove]
    by_cases hrest : key ∈ rest
    · simp [hrest]
    · simp [hrest, eq_comm]

/-- No library is left when all are removed. -/
theorem isLibrary_of_removeLibraries {f : SourceFile} (h : index.removeLibraries.file? key = some f) :
    f.isLibrary = false := by
  rw [removeLibraries, file?_foldl_remove] at h
  split at h
  · cases h
  · next hkey =>
    obtain ⟨hmem, rfl⟩ := mem_of_file? h
    by_contra hlibrary
    rw [Bool.not_eq_false] at hlibrary
    exact hkey (List.mem_map_of_mem (List.mem_filter.mpr ⟨hmem, hlibrary⟩))

/-- Under the key of a loaded library is the last one with that key, and elsewhere is what was there. -/
theorem file?_foldl_addLoaded (loaded : List LoadedLibrary) (index : Index) (key : Key) :
    (loaded.foldl addLoaded index).file? key =
      match (loaded.filter fun library => Key.ofText library.name = key).getLast? with
      | some library => some library.record
      | none => index.file? key := by
  induction loaded generalizing index with
  | nil => rfl
  | cons library rest ih =>
    rw [List.foldl_cons, ih]
    have hadded : (index.addLoaded library).file? key =
        if Key.ofText library.name = key then some library.record else index.file? key :=
      file?_add index library.record key
    rw [hadded]
    by_cases hkey : Key.ofText library.name = key
    · rw [List.filter_cons_of_pos (by simpa using hkey), if_pos hkey, List.getLast?_cons]
      cases (rest.filter fun library => Key.ofText library.name = key).getLast? <;> rfl
    · rw [List.filter_cons_of_neg (by simpa using hkey), if_neg hkey]

/-- A library of the index was loaded if libraries have just been installed. -/
theorem exists_loaded_of_install {f : SourceFile} (h : (index.install loaded).file? key = some f)
    (hlibrary : f.isLibrary = true) :
    ∃ library ∈ loaded, Key.ofText library.name = key ∧ f = library.record := by
  rw [install, file?_foldl_addLoaded] at h
  split at h
  · next library hlast =>
    obtain ⟨hmem, hkey⟩ := List.mem_filter.mp (List.mem_of_getLast? hlast)
    exact ⟨library, hmem, by simpa using hkey, (Option.some.inj h).symm⟩
  · rw [isLibrary_of_removeLibraries h] at hlibrary
    cases hlibrary

/-- Every loaded library is found under its key, or another one of the same key. -/
theorem exists_file?_install {library : LoadedLibrary} (h : library ∈ loaded) :
    ∃ f, (index.install loaded).file? (Key.ofText library.name) = some f ∧ f.isLibrary = true := by
  rw [install, file?_foldl_addLoaded]
  split
  · next last hlast => exact ⟨last.record, rfl, rfl⟩
  · next hnone =>
    have hmem : library ∈ loaded.filter fun other => Key.ofText other.name = Key.ofText library.name :=
      List.mem_filter.mpr ⟨h, by simp⟩
    rw [List.getLast?_eq_none_iff.mp hnone] at hmem
    cases hmem

end Index

/-- Installing what a cache has loaded brings index and cache together. -/
theorem librariesAgree_install (c : LibraryCache) (storage : Storage) (index : Index) :
    LibrariesAgree storage (c.load storage).1 (index.install (c.load storage).2) where
  recorded key := by
    constructor
    · rintro ⟨f, hfile, hlibrary⟩
      obtain ⟨library, hloaded, rfl, -⟩ := Index.exists_loaded_of_install hfile hlibrary
      obtain ⟨e, he, hname, hdocument, -⟩ := LibraryCache.exists_entry_of_mem_load hloaded
      exact ⟨e, he, by rw [hname], library.document, hdocument⟩
    · rintro ⟨e, he, rfl, document, hdocument⟩
      obtain ⟨library, hloaded, hname, -, -⟩ := LibraryCache.exists_mem_load_of_entry he hdocument
      rw [← hname]
      exact Index.exists_file?_install hloaded
  keywords key f hfile hlibrary := by
    obtain ⟨library, hloaded, rfl, rfl⟩ := Index.exists_loaded_of_install hfile hlibrary
    obtain ⟨e, he, hname, hdocument, hread⟩ := LibraryCache.exists_entry_of_mem_load hloaded
    have hdocuments := (LibraryCache.documents_of_readDocument hread).1
    refine ⟨e, he, by rw [hname], library.document, library.outline, hdocument, hdocuments, ?_⟩
    exact map_declaration_keywordsFrom _ _ _ _
  documents e he document hdocument := by
    obtain ⟨library, -, -, -, hread⟩ := LibraryCache.exists_mem_load_of_entry he hdocument
    exact ⟨library.outline, LibraryCache.documents_of_readDocument hread⟩

/-! ## How an operation goes on -/

namespace Workspace

variable {w : Workspace} {storage : Storage}

/-- A task of a reload has kept no event when it begins to wait. -/
def Unheard (p : Progress) : Prop :=
  ∀ task staging errors, p.task? = some task → task.purpose = .reload staging errors →
    p.workspace.staged = some []

theorem covers_unheard (storage : Storage) (w : Workspace) : Covers Unheard storage w where
  done _ _ _ := by
    intro task staging errors htask
    cases htask
  beginReload _ _ := by
    intro task staging errors _ _
    rfl
  beginRefresh _ _ _ := by
    intro task staging errors htask hpurpose
    obtain rfl := Option.some.inj htask
    cases hpurpose

/-- An operation that is done leaves the cache. -/
def Keeps (cache : LibraryCache) (p : Progress) : Prop :=
  p.task? = none → p.workspace.cache = cache

theorem covers_keeps (storage : Storage) (w : Workspace) : Covers (Keeps w.cache) storage w where
  done _ _ _ := fun _ => rfl
  beginReload _ _ := by
    intro hdone
    cases hdone
  beginRefresh _ _ _ := by
    intro hdone
    cases hdone

theorem keeps_resume (w : Workspace) (storage : Storage) (task : Task) (acquisition : Acquisition) :
    Keeps (w.takeIn storage task.names acquisition).1.cache (w.resume storage task acquisition) :=
  resume_cases task acquisition (fun _ _ _ => covers_keeps storage (w.swapped _ _ _ _))
    fun _ _ => covers_keeps storage (w.refreshed _ _ _)

/-! ## File events -/

/-- Whether a call brings news of a file. A project that is open is gone when it is closed. -/
def hears (w : Workspace) (storage : Storage) : Call → Bool
  | .remove _ => true
  | .closeProject root => w.roots.any (·.sameAs root)
  | c => (w.written? storage c).isSome

/-- A call that brings no news and is done leaves the kept events. -/
theorem staged_enact {c : Call} (hquiet : w.hears storage c = false)
    (hdone : (w.enact storage c).task? = none) :
    (w.enact storage c).workspace.staged = w.staged := by
  -- a reload that is done has been folded into another one
  have hreload : ∀ w : Workspace, (w.reload storage).task? = none →
      (w.reload storage).workspace.staged = w.staged := by
    intro w hdone
    cases hrunning : w.reloads.isRunning with
    | true =>
      rw [reload_of_running hrunning]
      rfl
    | false =>
      rw [reload_of_not_running hrunning] at hdone
      cases hdone
  cases c with
  | openProject root => exact hreload _ hdone
  | closeProject root =>
    have hclosed : w.roots.any (·.sameAs root) = false := hquiet
    simp [enact, closeProject, hclosed, Progress.workspace]
  | reload => exact hreload w hdone
  | update path content => cases hquiet
  | reloadFile path =>
    cases hread : (w.loader storage).readLimited path with
    | ok content => simp [hears, written?, hread] at hquiet
    | error e =>
      simp only [enact, reloadFile_of_unread hread]
      rfl
  | remove path => cases hquiet

end Workspace

namespace Session

/-- A session that waits for the generator, and in which no file event has come since it was asked. -/
inductive Undisturbed : Session → Prop where
  | asked {s : Session} {storage : Storage} {move : Move} (h : s.Reachable)
      (hmove : s.Allows storage move) (hasked : (s.progress storage move).task? ≠ none) :
    Undisturbed (s.next storage move)
  | call {s : Session} {storage : Storage} {c : Call} (h : Undisturbed s)
      (hmove : s.Allows storage (.call c)) (hquiet : s.workspace.hears storage c = false) :
    Undisturbed (s.next storage (.call c))

variable {s : Session} {storage : Storage}

/-- A move that asks the generator leaves the session waiting with its task. -/
theorem next_of_asked {move : Move} {task : Task} (h : (s.progress storage move).task? = some task) :
    s.next storage move = ⟨(s.progress storage move).workspace, some task⟩ := by
  cases move with
  | call c => simp [next, h]
  | answer acquisition => simp [next, Progress.session, h]

/-- A reload waits without events. -/
theorem Undisturbed.staged (h : s.Undisturbed) :
    ∃ task, s.waiting = some task ∧
      ∀ staging errors, task.purpose = .reload staging errors → s.workspace.staged = some [] := by
  induction h with
  | @asked s storage move _ hmove hasked =>
    obtain ⟨task, htask⟩ := Option.ne_none_iff_exists'.mp hasked
    have hunheard : Workspace.Unheard (s.progress storage move) := by
      cases move with
      | call c => exact Workspace.enact_cases (fun later _ => Workspace.covers_unheard storage later) c
      | answer acquisition =>
        unfold progress
        cases s.waiting with
        | none =>
          intro task staging errors htask
          cases htask
        | some waiting =>
          exact Workspace.resume_cases waiting acquisition (fun _ _ _ => Workspace.covers_unheard _ _)
            fun _ _ => Workspace.covers_unheard _ _
    rw [next_of_asked htask]
    exact ⟨task, rfl, fun staging errors => hunheard task staging errors htask⟩
  | @call s storage c _ hmove hquiet ih =>
    obtain ⟨task, hwaiting, hstaged⟩ := ih
    have hdone : (s.workspace.enact storage c).task? = none :=
      hmove.resolve_left (by simp [hwaiting])
    refine ⟨task, by simp [next, progress, hdone, hwaiting], fun staging errors hpurpose => ?_⟩
    rw [← hstaged staging errors hpurpose]
    exact Workspace.staged_enact hquiet hdone

end Session

/-- Whatever happened before, whatever is answered and whatever is in the storage: when the answer to a
request is taken in and no file event has come since the request, the index in use has the records of
exactly the libraries that are cached as successes with a document, with the keywords of such a document,
and each of these documents can be read and has keywords. When that ends the reload or the refresh, this is
the cache of the workspace. -/
theorem libraries_agree {s : Session} (h : s.Undisturbed) {task : Task} (hwaiting : s.waiting = some task)
    (storage : Storage) (acquisition : Acquisition) :
    let later := s.next storage (.answer acquisition)
    LibrariesAgree storage (s.workspace.takeIn storage task.names acquisition).1.cache
        later.workspace.index ∧
      (later.waiting = none → LibrariesAgree storage later.workspace.cache later.workspace.index) := by
  intro later
  have hlater : later = (s.workspace.resume storage task acquisition).session := by
    simp only [later, Session.next, Session.progress, hwaiting]
  obtain ⟨index, hindex⟩ : ∃ index : Index, later.workspace.index =
      index.install (s.workspace.takeIn storage task.names acquisition).2 := by
    rw [hlater]
    obtain ⟨waiting, hsame, hstaged⟩ := h.staged
    obtain rfl : task = waiting := Option.some.inj (hwaiting.symm.trans hsame)
    obtain ⟨names, purpose⟩ := task
    cases purpose with
    | reload staging errors =>
      -- nothing is replayed on what was installed
      refine ⟨staging, (Workspace.index_resume_reload _ _ _ _ _ _).trans ?_⟩
      rw [Workspace.replay, hstaged staging errors rfl]
      rfl
    | refresh next => exact ⟨_, Workspace.index_resume_refresh _ _ _ _ _⟩
  have hagree : LibrariesAgree storage (s.workspace.takeIn storage task.names acquisition).1.cache
      later.workspace.index := by
    rw [hindex]
    exact librariesAgree_install _ _ _
  refine ⟨hagree, fun hdone => ?_⟩
  have hcache : later.workspace.cache = (s.workspace.takeIn storage task.names acquisition).1.cache := by
    rw [hlater] at hdone ⊢
    exact s.workspace.keeps_resume storage task acquisition hdone
  rw [hcache]
  exact hagree

/-- The first reload of a workspace has brought the generated library to both. -/
theorem libraries_agree_acquired :
    acquired.waiting = none ∧ acquired.workspace.index.keys = [⟨"builtin"⟩] ∧
      acquired.workspace.cache.entries.map (·.name) = ["BuiltIn"] ∧
      LibrariesAgree generated.toStorage acquired.workspace.cache acquired.workspace.index := by
  have hrun : asked.waiting.isSome = true ∧ acquired.waiting.isNone = true ∧
      acquired.workspace.index.keys = [⟨"builtin"⟩] ∧
      acquired.workspace.cache.entries.map (·.name) = ["BuiltIn"] := by
    decide +kernel
  obtain ⟨hasked, hdone, hkeys, hnames⟩ := hrun
  obtain ⟨task, htask⟩ := Option.isSome_iff_exists.mp hasked
  have hundisturbed : asked.Undisturbed := by
    refine .asked (.start ofSettings_places) (Or.inl rfl) fun hnone => ?_
    -- nothing waited before, so what waits now is what was asked
    have hwaiting : asked.waiting = none := (Option.or_none).trans hnone
    rw [htask] at hwaiting
    cases hwaiting
  have hagree := libraries_agree hundisturbed htask generated.toStorage
    ⟨[{ name := "BuiltIn", status := .success, document := some ⟨"/gen/BuiltIn.xml"⟩ }], {}⟩
  exact ⟨Option.isNone_iff_eq_none.mp hdone, hkeys, hnames, hagree.2 (Option.isNone_iff_eq_none.mp hdone)⟩

end KeywordIndex
