import KeywordIndex.Proofs.Path.Containment
import KeywordIndex.Proofs.Project.Operation
import KeywordIndex.Proofs.Project.Update
import KeywordIndex.Storage.Memory

namespace KeywordIndex

/-! # Events during a reload

A reload waits for the generator with an index of its own, and the events that arrive meanwhile are
answered on the index in use. They are applied once more to the new index before it takes that place. So
at the swap the last event about a key decides what is under it (`events_survive_reload`): whatever later
events on other keys load or resolve, they neither overwrite that record nor bring it back. There is one
exception, `Spares`: the key of the current directory, `.`, is no beginning of the keys below it, and a
removal of that directory passes over them.
-/

namespace FileEvent

/-- The event is about the file with the key: an update of it, or the removal of it or of a directory
above it. -/
def Concerns (event : FileEvent) (key : Key) : Prop :=
  match event with
  | .update path _ => path.key = key
  | .remove path => path.key.Holds key

/-- The event is a removal of the current directory, and the key is another one. -/
def Spares (event : FileEvent) (key : Key) : Prop :=
  match event with
  | .update _ _ => False
  | .remove path => path.key = Key.current ∧ key ≠ Key.current

instance (event : FileEvent) (key : Key) : Decidable (event.Concerns key) :=
  match event with
  | .update path _ => inferInstanceAs (Decidable (path.key = key))
  | .remove path => inferInstanceAs (Decidable (path.key.Holds key))

instance (event : FileEvent) (key : Key) : Decidable (event.Spares key) :=
  match event with
  | .update _ _ => inferInstanceAs (Decidable False)
  | .remove path => inferInstanceAs (Decidable (path.key = Key.current ∧ key ≠ Key.current))

end FileEvent

/-- No table file of the index lies in the output directory of the generator. -/
def Index.KeepsOut (index : Index) (s : Settings) : Prop :=
  ∀ key, s.generates key = true → index.hasTable key = false

/-! ## The output directory of the generator -/

namespace Index

variable {index later : Index}

theorem keepsOut_empty (s : Settings) : KeepsOut {} s := fun _ _ => rfl

theorem KeepsOut.add {l : Loader} (h : index.KeepsOut l.settings) {path : Path} {f : SourceFile}
    (hf : l.Finds path f) : (index.add f).KeepsOut l.settings := by
  intro key hkey
  rw [hasTable, file?_add]
  split
  · next hsame =>
    rw [← hsame, hf.key_eq, hf.not_generated] at hkey
    cases hkey
  · exact h key hkey

/-- Filling in missing files brings no table file into the output directory. -/
theorem KeepsOut.of_fills {l : Loader} (h : index.KeepsOut l.settings) {key : Key}
    (hkey : l.settings.generates key = true) {f? : Option SourceFile} (hf : l.Fills index key f?)
    (hlater : later.unlinked? key = f?.map SourceFile.unlinked) : later.hasTable key = false := by
  rcases hf with rfl | ⟨-, path, f, -, hfinds, rfl, -⟩
  · rw [hasTable_eq, hlater]
    exact (hasTable_eq index key).symm.trans (h key hkey)
  · rw [hfinds.not_generated] at hkey
    cases hkey

theorem KeepsOut.install {s : Settings} (h : index.KeepsOut s) (loaded : List LoadedLibrary) :
    (index.install loaded).KeepsOut s := by
  intro key hkey
  have hno : index.hasTable key ≠ true := by simp [h key hkey]
  exact Bool.eq_false_iff.mpr fun htable => hno (hasTable_of_install htable)

end Index

namespace Workspace

variable {w : Workspace} {storage : Storage} {index : Index}

theorem keepsOut_applyEvent (h : index.KeepsOut w.settings) (event : FileEvent) :
    (w.applyEvent storage index event).KeepsOut w.settings := by
  intro key hkey
  cases event with
  | update path content =>
    change ((w.applyUpdate storage path content index).1).hasTable key = false
    cases haccepts : w.accepts path content with
    | true =>
      -- the file lies outside, and what is loaded for it too
      have hne : key ≠ path.key := by
        rintro rfl
        simp [accepts, hkey] at haccepts
      obtain ⟨f?, hf, hlater⟩ := unlinked?_updated_of_ne w storage content index hne
      rw [applyUpdate_of_accepts storage index haccepts]
      exact h.of_fills (l := w.loader storage) hkey hf hlater
    | false =>
      rcases (applyUpdate_of_rejects storage index haccepts).2 with hindex | ⟨-, hindex⟩
      · rw [hindex, Index.hasTable, Index.file?_remove]
        split
        · rfl
        · exact h key hkey
      · rw [hindex]
        exact h key hkey
  | remove path =>
    change (index.reset (some path)).hasTable key = false
    rw [Index.hasTable, Index.file?_reset]
    split
    · rfl
    · exact h key hkey

theorem keepsOut_replay (storage : Storage) (events : List FileEvent) (h : index.KeepsOut w.settings) :
    (events.foldl (w.applyEvent storage) index).KeepsOut w.settings :=
  List.foldlRecOn (motive := fun index : Index => index.KeepsOut w.settings) events _ h
    fun _ h event _ => keepsOut_applyEvent h event

/-! ## One event -/

/-- Whether the event puts a record into an index. -/
def takesIn (w : Workspace) : FileEvent → Bool
  | .update path content => w.accepts path content
  | .remove _ => false

/-- An event about other keys leaves what is under a key, unless that is nothing. -/
theorem unlinked?_applyEvent (w : Workspace) (storage : Storage) (index : Index) {event : FileEvent}
    {target : Path} (h : event.Concerns target.key → event.Spares target.key) :
    ∃ f?, (w.loader storage).Fills index target.key f? ∧
      (w.applyEvent storage index event).unlinked? target.key = f?.map SourceFile.unlinked := by
  cases event with
  | update path content =>
    change ∃ f?, _ ∧ ((w.applyUpdate storage path content index).1).unlinked? target.key = _
    have hne : target.key ≠ path.key := fun e => h e.symm
    cases haccepts : w.accepts path content with
    | true =>
      rw [applyUpdate_of_accepts storage index haccepts]
      exact unlinked?_updated_of_ne w storage content index hne
    | false =>
      refine ⟨index.file? target.key, Or.inl rfl, ?_⟩
      rcases (applyUpdate_of_rejects storage index haccepts).2 with hindex | ⟨-, hindex⟩
      · rw [hindex, Index.unlinked?, Index.file?_remove, if_neg hne.symm]
      · rw [hindex, Index.unlinked?]
  | remove path =>
    refine ⟨index.file? target.key, Or.inl rfl, ?_⟩
    have houtside : target.key.isWithin path.key ≠ true := by
      intro hwithin
      obtain ⟨hholds, hcurrent⟩ := (Key.isWithin_iff target path).mp hwithin
      exact (h hholds).2 (hcurrent (h hholds).1)
    change (index.reset (some path)).unlinked? target.key = _
    rw [Index.unlinked?, Index.file?_reset, if_neg houtside]

/-- An event about a key that takes nothing in leaves no table file there. -/
theorem hasTable_applyEvent (hindex : index.KeepsOut w.settings) {event : FileEvent} {target : Path}
    (hconcerns : event.Concerns target.key) (hspares : ¬ event.Spares target.key)
    (htakes : w.takesIn event = false) :
    (w.applyEvent storage index event).hasTable target.key = false := by
  cases event with
  | update path content =>
    change ((w.applyUpdate storage path content index).1).hasTable target.key = false
    have hkey : path.key = target.key := hconcerns
    rcases (applyUpdate_of_rejects storage index htakes).2 with hremoved | ⟨hplace, hsame⟩
    · rw [hremoved, Index.hasTable, Index.file?_remove, if_pos hkey]
      rfl
    · -- nothing was changed, but no table file lies there
      rw [hsame]
      exact hindex _ (hkey ▸ hplace)
  | remove path =>
    have hwithin : target.key.isWithin path.key = true := by
      refine (Key.isWithin_iff target path).mpr ⟨hconcerns, fun hcurrent => ?_⟩
      by_contra hother
      exact hspares ⟨hcurrent, hother⟩
    change (index.reset (some path)).hasTable target.key = false
    rw [Index.hasTable, Index.file?_reset, if_pos hwithin]
    rfl

/-! ## The rest of the events -/

/-- Later events about other keys leave a record that is there. -/
theorem unlinked?_replay {events : List FileEvent} {target : Path}
    (h : ∀ event ∈ events, ¬ event.Concerns target.key) {f : SourceFile}
    (hf : index.unlinked? target.key = some f) :
    (events.foldl (w.applyEvent storage) index).unlinked? target.key = some f := by
  refine List.foldlRecOn (motive := fun later : Index => later.unlinked? target.key = some f) events _
    hf fun later hf event hevent => ?_
  obtain ⟨f?, hfills, hlater⟩ := unlinked?_applyEvent w storage later
    fun hconcerns => absurd hconcerns (h event hevent)
  have hcontains : later.contains target.key = true := by
    rw [Index.unlinked?, Option.map_eq_some_iff] at hf
    obtain ⟨g, hg, -⟩ := hf
    rw [Index.contains, hg]
    rfl
  rw [hlater, hfills.eq_of_contains hcontains]
  exact hf

/-- An event about other keys neither adds nor takes away a table file of which there is no file. -/
theorem hasTable_applyEvent_of_other (w : Workspace) (index : Index) {event : FileEvent} {target : Path}
    (hno : ∀ path, storage.isFile path = true → path.key ≠ target.key)
    (h : event.Concerns target.key → event.Spares target.key) :
    (w.applyEvent storage index event).hasTable target.key = index.hasTable target.key := by
  obtain ⟨f?, hfills, hlater⟩ := unlinked?_applyEvent w storage index h
  rcases hfills with rfl | ⟨-, path, f, hfile, -, hkey, -⟩
  · rw [Index.hasTable_eq, hlater, Index.hasTable_eq]
    rfl
  · exact absurd hkey (hno path hfile)

theorem hasTable_replay {events : List FileEvent} {target : Path}
    (hno : ∀ path, storage.isFile path = true → path.key ≠ target.key)
    (h : ∀ event ∈ events, ¬ event.Concerns target.key) :
    (events.foldl (w.applyEvent storage) index).hasTable target.key = index.hasTable target.key := by
  refine List.foldlRecOn
    (motive := fun later : Index => later.hasTable target.key = index.hasTable target.key) events _
    rfl fun later hsame event hevent => ?_
  have hother := hasTable_applyEvent_of_other w later hno
    fun hconcerns => absurd hconcerns (h event hevent)
  exact hother.trans hsame

/-! ## A reload -/

/-- Takes in an event. -/
def receive (w : Workspace) (storage : Storage) : FileEvent → Workspace
  | .update path content => (w.updateFile storage path content).workspace
  | .remove path => w.removeFile path

/-- Takes in some events, each with the storage as it is then. -/
def receiveAll (w : Workspace) (events : List (Storage × FileEvent)) : Workspace :=
  events.foldl (fun w event => w.receive event.1 event.2) w

/-- Applies some events to an index, each with the storage as it is then. -/
def applyAll (w : Workspace) (events : List (Storage × FileEvent)) (index : Index) : Index :=
  events.foldl (fun index event => w.applyEvent event.1 index event.2) index

/-- Events are applied by the settings and the patterns alone. -/
theorem applyEvent_congr {w' : Workspace} (hsettings : w'.settings = w.settings)
    (hpatterns : w'.patterns = w.patterns) : w'.applyEvent = w.applyEvent := by
  obtain ⟨settings, patterns⟩ := w
  obtain ⟨settings', patterns'⟩ := w'
  cases hsettings
  cases hpatterns
  funext storage index event
  cases event <;> rfl

theorem receive_of_staged {events : List FileEvent} (h : w.staged = some events)
    (storage : Storage) (event : FileEvent) :
    w.receive storage event =
      { w with
        index := w.applyEvent storage w.index event
        staged := some (events ++ [event]) } := by
  cases event with
  | update path content =>
    obtain ⟨answer, hanswer⟩ := updateFile_of_staged h storage path content
    change (w.updateFile storage path content).workspace = _
    rw [hanswer]
    rfl
  | remove path =>
    change w.removeFile path = _
    unfold removeFile record
    rw [h]
    rfl

/-- While a reload waits, events change the index in use, one after another, and are kept in order. -/
theorem receiveAll_of_staged {kept : List FileEvent} (h : w.staged = some kept)
    (events : List (Storage × FileEvent)) :
    (w.receiveAll events).index = w.applyAll events w.index ∧
      (w.receiveAll events).staged = some (kept ++ events.map (·.2)) ∧
      (w.receiveAll events).applyEvent = w.applyEvent := by
  induction events generalizing w kept with
  | nil =>
    rw [List.map_nil, List.append_nil, ← h]
    exact ⟨rfl, rfl, rfl⟩
  | cons event rest ih =>
    have hfirst := receive_of_staged h event.1 event.2
    have happly : (w.receive event.1 event.2).applyEvent = w.applyEvent :=
      applyEvent_congr (by rw [hfirst]) (by rw [hfirst])
    have hkept : (w.receive event.1 event.2).staged = some (kept ++ [event.2]) := by rw [hfirst]
    obtain ⟨hindex, hstaged, hrest⟩ := ih hkept
    refine ⟨?_, ?_, hrest.trans happly⟩
    · refine hindex.trans ?_
      unfold applyAll
      rw [happly, hfirst]
      rfl
    · refine hstaged.trans ?_
      rw [List.append_assoc]
      rfl

theorem keepsOut_staging (w : Workspace) (storage : Storage) :
    (w.staging storage).KeepsOut w.settings := by
  intro key hkey
  have hscanned : (scanRoots (w.loader storage) w.roots {}).1.KeepsOut w.settings :=
    scanRoots_induction (motive := fun index => index.KeepsOut w.settings)
      (fun _ _ _ hf h => h.add hf) w.roots (Index.keepsOut_empty _)
  obtain ⟨f?, hfills, hlater⟩ := (w.loader storage).unlinked?_resolveImports
    (scanRoots (w.loader storage) w.roots {}).1 key
  exact hscanned.of_fills hkey hfills hlater

/-- At a swap the last event about a key decides. -/
theorem last_event_decides {installed : Index} (hinstalled : installed.KeepsOut w.settings)
    {before rest : List FileEvent} {event : FileEvent} {target : Path}
    (hconcerns : event.Concerns target.key) (hrest : ∀ other ∈ rest, ¬ other.Concerns target.key) :
    let swapped := (before ++ event :: rest).foldl (w.applyEvent storage) installed
    (∀ path content, event = .update path content → w.accepts path content = true →
      swapped.unlinked? target.key = some (.ofTable (Robot.parse content) path)) ∧
    (w.takesIn event = false →
      (∀ path, storage.isFile path = true → path.key ≠ target.key) →
      (swapped.hasTable target.key = true ↔ event.Spares target.key ∧
        (before.foldl (w.applyEvent storage) installed).hasTable target.key = true)) := by
  have hbefore := keepsOut_replay storage before hinstalled
  simp only [List.foldl_append, List.foldl_cons]
  constructor
  · rintro path content rfl haccepts
    have hkey : path.key = target.key := hconcerns
    refine unlinked?_replay hrest ?_
    change ((w.applyUpdate storage path content _).1).unlinked? target.key = _
    rw [applyUpdate_of_accepts storage _ haccepts, ← hkey]
    exact unlinked?_updated_self w storage path content _
  · intro htakes hno
    rw [hasTable_replay hno hrest]
    by_cases hspares : event.Spares target.key
    · -- the removal of the current directory passes over the key
      rw [hasTable_applyEvent_of_other w _ hno fun _ => hspares]
      simp [hspares]
    · rw [hasTable_applyEvent hbefore hconcerns hspares htakes]
      simp [hspares]

/-- Whatever events arrive while a reload waits for the generator, each is answered at once, and the index
in use is the one from before the reload with these events applied in order. At the swap the events are
applied to the index of the reload. If the last event about a key takes new content in, the record of
that content is there, links aside. If it takes nothing in and there is no file for the key, no table file
is there, unless that event is a removal of the current directory, which changes nothing below it: then a
table file is there exactly if one was there before that event. -/
theorem events_survive_reload (w : Workspace) (storage later : Storage) (acquisition : Acquisition)
    (events : List (Storage × FileEvent)) :
    ∃ begun names staging errors,
      w.beginReload storage = .waiting begun ⟨names, .reload staging errors⟩ ∧
      let waiting := begun.receiveAll events
      let installed := staging.install (waiting.takeIn later names acquisition).2
      let swapped :=
        (waiting.resume later ⟨names, .reload staging errors⟩ acquisition).workspace.index
      (waiting.index = w.applyAll events w.index ∧
        ∀ disk path content, ∃ answer, waiting.updateFile disk path content =
          .done (waiting.receive disk (.update path content)) answer) ∧
      swapped = (events.map (·.2)).foldl (w.applyEvent later) installed ∧
      ∀ (target : Path) (before : List (Storage × FileEvent)) (disk : Storage) (event : FileEvent)
        (rest : List (Storage × FileEvent)),
        events = before ++ (disk, event) :: rest → event.Concerns target.key →
        (∀ other ∈ rest, ¬ other.2.Concerns target.key) →
        (∀ path content, event = .update path content → w.accepts path content = true →
          swapped.unlinked? target.key = some (.ofTable (Robot.parse content) path)) ∧
        (w.takesIn event = false →
          (∀ path, later.isFile path = true → path.key ≠ target.key) →
          (swapped.hasTable target.key = true ↔ event.Spares target.key ∧
            ((before.map (·.2)).foldl (w.applyEvent later) installed).hasTable target.key = true)) := by
  obtain ⟨documents, cache, errors, hbegin⟩ := w.beginReload_eq storage
  -- of the waiting workspace only these three facts matter
  generalize hbegun : ({ w with
    state := .loading, staged := some [], projectDocuments := documents, cache := cache } : Workspace) =
      begun at hbegin
  have hstart : begun.index = w.index ∧ begun.staged = some [] ∧ begun.applyEvent = w.applyEvent := by
    rw [← hbegun]
    exact ⟨rfl, rfl, applyEvent_congr rfl rfl⟩
  refine ⟨begun, _, _, _, hbegin, ?_⟩
  intro waiting installed swapped
  obtain ⟨hindex, hstaged, happly⟩ := receiveAll_of_staged hstart.2.1 events
  have hswapped : swapped = (events.map (·.2)).foldl (w.applyEvent later) installed := by
    change (waiting.resume later _ acquisition).workspace.index = _
    rw [index_resume_reload, replay, hstaged, happly, hstart.2.2]
    rfl
  refine ⟨⟨?_, ?_⟩, hswapped, ?_⟩
  · rw [hindex, hstart.1]
    unfold applyAll
    rw [hstart.2.2]
  · intro disk path content
    obtain ⟨answer, hanswer⟩ := updateFile_of_staged hstaged disk path content
    exact ⟨answer, by rw [hanswer, receive_of_staged hstaged]⟩
  · intro target before disk event rest hevents hconcerns hrest
    have hinstalled : installed.KeepsOut w.settings := (w.keepsOut_staging storage).install _
    have hlater : ∀ other ∈ rest.map (·.2), ¬ other.Concerns target.key := by
      intro other hother
      obtain ⟨entry, hentry, rfl⟩ := List.mem_map.mp hother
      exact hrest entry hentry
    rw [hswapped, hevents, List.map_append, List.map_cons]
    exact last_event_decides hinstalled hconcerns hlater

/-- A storage without files. -/
def blank : Storage := MemoryStorage.toStorage {}

/-- Two files are written and the first is removed again with its directory. -/
def brief : List (Storage × FileEvent) :=
  [(blank, .update ⟨"/p/a.robot"⟩ "*** Keywords ***\nFoo\n".toList),
    (blank, .update ⟨"/q/b.robot"⟩ "*** Keywords ***\nBar\n".toList),
    (blank, .remove ⟨"/P"⟩)]

theorem brief_events_survive_reload :
    ∃ begun names staging errors,
      vacant.beginReload blank = .waiting begun ⟨names, .reload staging errors⟩ ∧
      let swapped :=
        ((begun.receiveAll brief).resume blank ⟨names, .reload staging errors⟩ ⟨[], {}⟩).workspace.index
      swapped.unlinked? ⟨"/q/b.robot"⟩ =
        some (.ofTable (Robot.parse "*** Keywords ***\nBar\n".toList) ⟨"/q/b.robot"⟩) ∧
      ¬ swapped.hasTable ⟨"/p/a.robot"⟩ = true := by
  obtain ⟨begun, names, staging, errors, hbegin, -, -, hlast⟩ :=
    events_survive_reload vacant blank blank ⟨[], {}⟩ brief
  have hkeyA : (Path.mk "/p/a.robot").key = ⟨"/p/a.robot"⟩ := by decide +kernel
  have hkeyB : (Path.mk "/q/b.robot").key = ⟨"/q/b.robot"⟩ := by decide +kernel
  refine ⟨begun, names, staging, errors, hbegin, ?_, ?_⟩
  · have hwritten := (hlast ⟨"/q/b.robot"⟩ [brief[0]] blank brief[1].2 [brief[2]] rfl rfl
      (by decide +kernel)).1 _ _ rfl (by decide +kernel)
    rwa [hkeyB] at hwritten
  · have hremoved := (hlast ⟨"/p/a.robot"⟩ [brief[0], brief[1]] blank brief[2].2 [] rfl
      (by decide +kernel) (by simp)).2 rfl (fun _ h => by cases h)
    rw [hkeyA] at hremoved
    have hspares : ¬ brief[2].2.Spares ⟨"/p/a.robot"⟩ := by decide +kernel
    exact fun htable => hspares (hremoved.mp htable).1

/-- A file that is written and removed with the current directory during a reload is indexed afterwards. -/
theorem removal_of_current_directory_lost :
    ∃ begun names staging errors,
      vacant.beginReload blank = .waiting begun ⟨names, .reload staging errors⟩ ∧
      let events :=
        [(blank, .update ⟨"a.robot"⟩ "*** Keywords ***\nFoo\n".toList), (blank, .remove ⟨"."⟩)]
      let swapped :=
        ((begun.receiveAll events).resume blank ⟨names, .reload staging errors⟩ ⟨[], {}⟩).workspace.index
      (FileEvent.remove ⟨"."⟩).Concerns (Path.mk "a.robot").key ∧
      (∀ path, ¬ blank.isFile path = true) ∧
      swapped.hasTable (Path.mk "a.robot").key = true := by
  refine ⟨_, _, _, _, rfl, ?_, ?_, ?_⟩
  · decide +kernel
  · intro path h
    cases h
  · decide +kernel

end Workspace

end KeywordIndex
