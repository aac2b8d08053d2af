import KeywordIndex.Library.Cache
import Mathlib.Data.List.Nodup

namespace KeywordIndex.LibraryCache

/-! # One round of the library cache

A round takes in what the generator reported, lets fallbacks stand in and reads the documents. What comes
of a library depends on its own entry, reports and fallback alone (`entry?_round`), so a round is a
function on single entries (`afterRound`). Fallbacks stand in before documents are read. So a cached
success that turns out to be unreadable is a failure after one round, and only the next round does what is
done about failures. Such a library is `Lost`; where there is none, a second round changes nothing
(`round_round`).
-/

attribute [ext] LibraryCache

variable {c d : LibraryCache} {storage : Storage} {name : String} {asked : List String}
  {e? : Option LibraryEntry} {e : LibraryEntry} {reported : List LibraryEntry}

/-- The names of the entries. -/
def names (c : LibraryCache) : List String := c.entries.map (·.name)

/-! ## Entries by name -/

theorem name_eq_of_found (h : c.entry? name = some e) : e.name = name := by
  simpa using List.find?_some h

theorem isSome_entry?_iff : (c.entry? name).isSome = true ↔ name ∈ c.names := by
  simp [names, entry?, List.find?_isSome]

theorem entry?_put (c : LibraryCache) (e : LibraryEntry) (name : String) :
    LibraryCache.entry? (c.put e) name = if e.name = name then some e else c.entry? name := by
  obtain ⟨entries, -, -⟩ := c
  change (putIn e entries).find? (·.name == name) =
    if e.name = name then some e else entries.find? (·.name == name)
  induction entries with
  | nil => simp [putIn]
  | cons other rest ih =>
    rw [putIn]
    split <;> grind

theorem names_put (c : LibraryCache) (e : LibraryEntry) :
    (c.put e).names = c.names ++ if e.name ∈ c.names then [] else [e.name] := by
  obtain ⟨entries, -, -⟩ := c
  change (putIn e entries).map (·.name) =
    entries.map (·.name) ++ if e.name ∈ entries.map (·.name) then [] else [e.name]
  induction entries with
  | nil => simp [putIn]
  | cons other rest ih =>
    rw [putIn]
    split <;> grind

/-- Each entry is found under its own name. -/
theorem entry?_of_mem (h : c.names.Nodup) (he : e ∈ c.entries) : c.entry? e.name = some e := by
  obtain ⟨found, hfound⟩ := Option.isSome_iff_exists.mp
    (isSome_entry?_iff.mpr (List.mem_map_of_mem he))
  rw [hfound, List.inj_on_of_nodup_map h (List.mem_of_find?_eq_some hfound) he (name_eq_of_found hfound)]

/-- What is found under the names of a cache are its entries. -/
theorem entries_eq_filterMap (h : c.names.Nodup) : c.entries = c.names.filterMap c.entry? := by
  rw [names, List.filterMap_map]
  exact (List.filterMap_some.symm).trans (List.filterMap_congr fun e he => (entry?_of_mem h he).symm)

/-! ## What a step makes of one entry -/

/-- What a reported entry makes of the one cached under its name. -/
def mergedInto (old? : Option LibraryEntry) (e : LibraryEntry) : LibraryEntry :=
  match old? with
  | some old => if !e.isSuccess && old.isSuccess then { old with message := e.message } else e
  | none => e

/-- What the reports on a library make of its entry. -/
def afterReports (reported : List LibraryEntry) (name : String) (e? : Option LibraryEntry) :
    Option LibraryEntry :=
  (reported.filter (·.name = name)).foldl (fun old? e => some (mergedInto old? e)) e?

/-- What a document that may stand in makes of an entry. -/
def afterFallback (name : String) (document? : Option Path) (e? : Option LibraryEntry) :
    Option LibraryEntry :=
  if e?.any (·.isSuccess) then e?
  else
    match document? with
    | none => e?
    | some document => some { LibraryEntry.fallback name document with message := e?.bind (·.message) }

/-- What reading its document makes of an entry. -/
def afterReading (storage : Storage) (e? : Option LibraryEntry) : Option LibraryEntry :=
  e?.map fun e => (loadEntry storage e).1

/-- What a round makes of an entry. -/
def afterRound (storage : Storage) (reported : List LibraryEntry) (name : String)
    (document? : Option Path) (e? : Option LibraryEntry) : Option LibraryEntry :=
  afterReading storage (afterFallback name document? (afterReports reported name e?))

/-! ## What a step makes of a cache -/

/-- Entries were put into a cache, and nothing else was done to it. -/
structure Grows (c d : LibraryCache) : Prop where
  initial : c.names <+: d.names
  nodup : c.names.Nodup → d.names.Nodup
  fallbacks : d.fallbacks = c.fallbacks
  environment : d.environment = c.environment

theorem Grows.refl (c : LibraryCache) : c.Grows c := ⟨List.prefix_rfl, id, rfl, rfl⟩

theorem Grows.trans {b : LibraryCache} (h : b.Grows c) (hnext : c.Grows d) : b.Grows d where
  initial := h.initial.trans hnext.initial
  nodup := hnext.nodup ∘ h.nodup
  fallbacks := hnext.fallbacks.trans h.fallbacks
  environment := hnext.environment.trans h.environment

theorem grows_put (c : LibraryCache) (e : LibraryEntry) : c.Grows (c.put e) where
  initial := names_put c e ▸ List.prefix_append _ _
  nodup := by
    intro h
    rw [names_put]
    split
    · simpa using h
    · next hnew => exact List.nodup_append.mpr ⟨h, List.nodup_singleton _, by grind⟩
  fallbacks := rfl
  environment := rfl

theorem merged_eq (c : LibraryCache) (e : LibraryEntry) :
    c.merged e = mergedInto (c.entry? e.name) e := rfl

theorem name_merged (c : LibraryCache) (e : LibraryEntry) : (c.merged e).name = e.name := by
  unfold merged
  split
  · next old hold =>
    have hname := name_eq_of_found hold
    split
    · exact hname
    · rfl
  · rfl

theorem grows_merge (c : LibraryCache) (reported : List LibraryEntry) :
    c.Grows (c.merge reported).1 := by
  induction reported generalizing c with
  | nil => exact Grows.refl c
  | cons e rest ih => exact (grows_put c _).trans (ih _)

theorem entry?_merge (c : LibraryCache) (reported : List LibraryEntry) (name : String) :
    LibraryCache.entry? (c.merge reported).1 name = afterReports reported name (c.entry? name) := by
  induction reported generalizing c with
  | nil => rfl
  | cons e rest ih =>
    rw [merge]
    simp only [ih, entry?_put, name_merged, afterReports]
    by_cases hname : e.name = name
    · subst hname
      simp [merged_eq]
    · simp [hname]

theorem grows_applyFallback (c : LibraryCache) (name : String) : c.Grows (c.applyFallback name) := by
  unfold applyFallback
  split
  · exact Grows.refl c
  · split
    · exact Grows.refl c
    · exact grows_put c _

theorem grows_applyFallbacks (c : LibraryCache) (asked : List String) :
    c.Grows (c.applyFallbacks asked) :=
  List.foldlRecOn (motive := c.Grows) asked applyFallback (Grows.refl c)
    fun d h name _ => h.trans (grows_applyFallback d name)

theorem entry?_applyFallback (c : LibraryCache) (key name : String) :
    LibraryCache.entry? (c.applyFallback key) name =
      if key = name then afterFallback name (c.fallback? name) (c.entry? name) else c.entry? name := by
  unfold applyFallback afterFallback hasSuccess
  by_cases hkey : key = name
  · subst hkey
    rw [if_pos rfl]
    split
    · rfl
    · cases c.fallback? key with
      | none => rfl
      | some document => exact (entry?_put _ _ _).trans (if_pos rfl)
  · rw [if_neg hkey]
    split
    · rfl
    · split
      · rfl
      · rw [entry?_put, if_neg (by simpa [LibraryEntry.fallback] using hkey)]

@[simp] theorem afterFallback_of_none (name : String) (e? : Option LibraryEntry) :
    afterFallback name none e? = e? := by
  simp [afterFallback]

/-- What stands in does not have to be stood in for. -/
theorem afterFallback_afterFallback (name : String) (document? : Option Path) (e? : Option LibraryEntry) :
    afterFallback name document? (afterFallback name document? e?) = afterFallback name document? e? := by
  unfold afterFallback
  cases document? with
  | none => simp
  | some document =>
    split <;> rfl

theorem entry?_applyFallbacks (c : LibraryCache) (asked : List String) (name : String) :
    LibraryCache.entry? (c.applyFallbacks asked) name =
      if name ∈ asked then afterFallback name (c.fallback? name) (c.entry? name)
      else c.entry? name := by
  induction asked generalizing c with
  | nil => rfl
  | cons first rest ih =>
    change LibraryCache.entry? ((c.applyFallback first).applyFallbacks rest) name = _
    have hfallback : (c.applyFallback first).fallback? name = c.fallback? name := by
      rw [fallback?, (grows_applyFallback c first).fallbacks, fallback?]
    rw [ih, hfallback, entry?_applyFallback]
    by_cases hfirst : first = name
    · simp [hfirst, afterFallback_afterFallback]
    · simp [hfirst, Ne.symm hfirst]

theorem name_loadEntry (storage : Storage) (e : LibraryEntry) : (loadEntry storage e).1.name = e.name := by
  unfold loadEntry
  split
  · split <;> rfl
  · rfl

theorem names_load (c : LibraryCache) (storage : Storage) : (c.load storage).1.names = c.names := by
  simp [names, load, name_loadEntry]

theorem entry?_load (c : LibraryCache) (storage : Storage) (name : String) :
    LibraryCache.entry? (c.load storage).1 name = afterReading storage (c.entry? name) := by
  simp [load, entry?, afterReading, List.find?_map, Function.comp_def, name_loadEntry]

/-! ## What a round makes of a cache -/

/-- Takes in what came of a request for some libraries, and lists those whose documents were read. -/
def round (c : LibraryCache) (storage : Storage) (asked : List String) (acquisition : Acquisition) :
    LibraryCache × List LoadedLibrary :=
  ((c.apply acquisition).1.applyFallbacks asked).load storage

/-- The document that may stand in for a library. Only those that were asked for have one. -/
def standIn? (c : LibraryCache) (asked : List String) (name : String) : Option Path :=
  if name ∈ asked then c.fallback? name else none

section Round

variable (c : LibraryCache) (storage : Storage) (asked : List String) (acquisition : Acquisition)

theorem grows_round : { c with environment := acquisition.environment }.Grows
    ((c.apply acquisition).1.applyFallbacks asked) :=
  (grows_merge _ _).trans (grows_applyFallbacks _ _)

theorem fallbacks_round : (c.round storage asked acquisition).1.fallbacks = c.fallbacks :=
  (grows_round c asked acquisition).fallbacks

theorem environment_round :
    (c.round storage asked acquisition).1.environment = acquisition.environment :=
  (grows_round c asked acquisition).environment

theorem initial_round : c.names <+: (c.round storage asked acquisition).1.names := by
  rw [round, names_load]
  exact (grows_round c asked acquisition).initial

variable {c} in
theorem nodup_round (h : c.names.Nodup) : (c.round storage asked acquisition).1.names.Nodup := by
  rw [round, names_load]
  exact (grows_round c asked acquisition).nodup h

/-- What a library comes to once reports are merged in and documents stand in. -/
theorem entry?_applied (name : String) :
    LibraryCache.entry? ((c.apply acquisition).1.applyFallbacks asked) name =
      afterFallback name (c.standIn? asked name)
        (afterReports acquisition.libraries name (c.entry? name)) := by
  have hmerged : LibraryCache.entry? (c.apply acquisition).1 name =
      afterReports acquisition.libraries name (c.entry? name) := entry?_merge _ _ _
  have hfallback : (c.apply acquisition).1.fallback? name = c.fallback? name :=
    congrArg (List.lookup name) (grows_merge _ _).fallbacks
  rw [entry?_applyFallbacks, hmerged, hfallback, standIn?]
  split
  · rfl
  · rw [afterFallback_of_none]

theorem entry?_round (name : String) :
    LibraryCache.entry? (c.round storage asked acquisition).1 name =
      afterRound storage acquisition.libraries name (c.standIn? asked name) (c.entry? name) := by
  rw [round, entry?_load, entry?_applied, afterRound]

end Round

/-! ## Reports -/

section Reports

variable {r? : Option LibraryEntry}

/-- What a failure, if one is reported, makes of an entry. -/
def noted (r? e? : Option LibraryEntry) : Option LibraryEntry :=
  match r? with
  | some r => some (mergedInto e? r)
  | none => e?

/-- Of two failures the last counts. -/
theorem mergedInto_mergedInto (e? : Option LibraryEntry) {r r' : LibraryEntry}
    (hr : r.isSuccess = false) (hr' : r'.isSuccess = false) :
    mergedInto (some (mergedInto e? r)) r' = mergedInto e? r' := by
  cases e? with
  | none => simp [mergedInto, hr]
  | some old =>
    cases hold : old.isSuccess with
    | false => simp [mergedInto, hr, hold]
    | true =>
      have hkept : ({ old with message := r.message } : LibraryEntry).isSuccess = true := hold
      simp [mergedInto, hr, hr', hold, hkept]

theorem foldl_mergedInto {rs : List LibraryEntry} (h : ∀ r ∈ rs, r.isSuccess = false)
    (e? : Option LibraryEntry) :
    rs.foldl (fun old? e => some (mergedInto old? e)) e? = noted rs.getLast? e? := by
  induction rs generalizing e? with
  | nil => rfl
  | cons r rest ih =>
    rw [List.foldl_cons, ih fun r hr => h r (List.mem_cons_of_mem _ hr)]
    cases hlast : rest.getLast? with
    | none =>
      obtain rfl := List.getLast?_eq_none_iff.mp hlast
      rfl
    | some last =>
      have hmem := List.mem_of_getLast? hlast
      rw [List.getLast?_cons, hlast]
      exact congrArg some (mergedInto_mergedInto e? (h r (by simp)) (h last (by simp [hmem])))

/-- If no success is reported on a library, at most a failure is noted. -/
theorem exists_noted (h : ∀ r ∈ reported, r.name = name → r.isSuccess = false) :
    ∃ r?, (∀ r, r? = some r → r ∈ reported ∧ r.name = name ∧ r.isSuccess = false) ∧
      ∀ e?, afterReports reported name e? = noted r? e? := by
  refine ⟨(reported.filter (·.name = name)).getLast?, fun r hr => ?_, fun e? => ?_⟩
  · have hmem := List.mem_filter.mp (List.mem_of_getLast? hr)
    have hname : r.name = name := by simpa using hmem.2
    exact ⟨hmem.1, hname, h r hmem.1 hname⟩
  · refine foldl_mergedInto (fun r hr => ?_) e?
    have hmem := List.mem_filter.mp hr
    exact h r hmem.1 (by simpa using hmem.2)

/-- A reported success leaves nothing of what was cached. -/
theorem afterReports_congr (h : ∃ r ∈ reported, r.name = name ∧ r.isSuccess = true)
    (e? f? : Option LibraryEntry) : afterReports reported name e? = afterReports reported name f? := by
  obtain ⟨r, hr, hname, hsuccess⟩ := h
  have hmem : r ∈ reported.filter (·.name = name) := List.mem_filter.mpr ⟨hr, by simpa using hname⟩
  unfold afterReports
  generalize reported.filter (·.name = name) = rs at hmem
  -- from the success on the two folds are one
  induction rs generalizing e? f? with
  | nil => cases hmem
  | cons first rest ih =>
    rcases List.mem_cons.mp hmem with rfl | hmem
    · have hfirst : ∀ old?, mergedInto old? r = r := by
        intro old?
        cases old? <;> simp [mergedInto, hsuccess]
      simp only [List.foldl_cons, hfirst]
    · exact ih _ _ hmem

theorem any_isSuccess_noted (hr : ∀ r, r? = some r → r.isSuccess = false) (e? : Option LibraryEntry) :
    (noted r? e?).any (·.isSuccess) = e?.any (·.isSuccess) := by
  cases r? with
  | none => rfl
  | some r =>
    have hr := hr r rfl
    cases e? with
    | none => simp [noted, mergedInto, hr]
    | some e =>
      cases he : e.isSuccess with
      | false => simp [noted, mergedInto, hr, he]
      | true =>
        have hkept : ({ e with message := r.message } : LibraryEntry).isSuccess = true := he
        simp [noted, mergedInto, hr, he, hkept]

theorem noted_noted (hr : ∀ r, r? = some r → r.isSuccess = false) (e? : Option LibraryEntry) :
    noted r? (noted r? e?) = noted r? e? := by
  cases r? with
  | none => rfl
  | some r => exact congrArg some (mergedInto_mergedInto e? (hr r rfl) (hr r rfl))

/-- The message is that of the failure. -/
theorem message_noted (hr : ∀ r, r? = some r → r.isSuccess = false) (e? : Option LibraryEntry)
    {r : LibraryEntry} (h : r? = some r) : (noted r? e?).bind (·.message) = r.message := by
  subst h
  have hr := hr r rfl
  cases e? with
  | none => rfl
  | some e => cases he : e.isSuccess <;> simp [noted, mergedInto, hr, he]

/-- A success that has the message of the failure already stays as it is. -/
theorem noted_of_message (hr : ∀ r, r? = some r → r.isSuccess = false) (he : e.isSuccess = true)
    (hmessage : ∀ r, r? = some r → e.message = r.message) : noted r? (some e) = some e := by
  cases r? with
  | none => rfl
  | some r => simp [noted, mergedInto, hr r rfl, he, ← hmessage r rfl]

end Reports

/-! ## Documents -/

/-- An entry is a success with a document that cannot be read, which the message says. -/
def Stale (storage : Storage) (e : LibraryEntry) (message : String) : Prop :=
  e.isSuccess = true ∧ ∃ document, e.document = some document ∧
    readDocument storage document = .error message

theorem loadEntry_of_stale {message : String} (h : Stale storage e message) :
    loadEntry storage e = (.failed e.name message, none) := by
  obtain ⟨hsuccess, document, hdocument, hread⟩ := h
  simp only [loadEntry, hsuccess, hdocument, hread]

theorem loadEntry_of_not_stale (h : ∀ message, ¬ Stale storage e message) :
    (loadEntry storage e).1 = e := by
  unfold loadEntry
  split
  · next document hsuccess hdocument =>
    split
    · rfl
    · next message hread => exact absurd ⟨hsuccess, document, hdocument, hread⟩ (h message)
  · rfl

theorem not_stale_of_failure {message : String} (h : e.isSuccess = false) : ¬ Stale storage e message :=
  fun hstale => by simp [hstale.1] at h

/-- Reading tells the same of what it has left. -/
theorem loadEntry_loadEntry (storage : Storage) (e : LibraryEntry) :
    (loadEntry storage (loadEntry storage e).1).2 = (loadEntry storage e).2 := by
  by_cases hstale : ∃ message, Stale storage e message
  · obtain ⟨message, hstale⟩ := hstale
    rw [loadEntry_of_stale hstale]
    rfl
  · rw [loadEntry_of_not_stale fun message h => hstale ⟨message, h⟩]

/-! ## A second round -/

/-- A library is cached as a success that cannot be read any more and is not reported again, although more
is done about a failure than to note it: another document stands in, or the failure is reported. -/
def Lost (storage : Storage) (reported : List LibraryEntry) (name : String) (document? : Option Path)
    (e? : Option LibraryEntry) : Prop :=
  ∃ e message, e? = some e ∧ Stale storage e message ∧
    (∀ r ∈ reported, r.name = name → r.isSuccess = false) ∧
    match document? with
    | some document => readDocument storage document ≠ .error message
    | none => ∃ r ∈ reported, r.name = name

section SecondRound

variable {document? : Option Path} {document : Path} {message : String} {r? : Option LibraryEntry}

theorem afterFallback_of_success (h : e.isSuccess = true) :
    afterFallback name document? (some e) = some e := if_pos h

theorem afterReading_of_failure (h : e?.any (·.isSuccess) = false) : afterReading storage e? = e? := by
  cases e? with
  | none => rfl
  | some e =>
    have hfailure : e.isSuccess = false := h
    exact congrArg some (loadEntry_of_not_stale fun message => not_stale_of_failure hfailure)

/-- What stands in for a failure. -/
def stoodIn (name : String) (document : Path) (e? : Option LibraryEntry) : LibraryEntry :=
  { LibraryEntry.fallback name document with message := e?.bind (·.message) }

theorem afterFallback_of_failure (h : e?.any (·.isSuccess) = false) :
    afterFallback name (some document) e? = some (stoodIn name document e?) := if_neg (by simp [h])

theorem stale_stoodIn_iff :
    Stale storage (stoodIn name document e?) message ↔ readDocument storage document = .error message := by
  constructor
  · rintro ⟨-, other, hother, hread⟩
    obtain rfl := Option.some.inj hother
    exact hread
  · exact fun hread => ⟨rfl, document, rfl, hread⟩

/-- A failure for which nothing can be read comes out as the failure to read. -/
theorem afterReading_stoodIn (h : e?.any (·.isSuccess) = false)
    (hread : readDocument storage document = .error message) :
    afterReading storage (afterFallback name (some document) e?) = some (.failed name message) := by
  rw [afterFallback_of_failure h]
  exact congrArg (fun result => some result.1) (loadEntry_of_stale (stale_stoodIn_iff.mpr hread))

/-- A second round makes nothing of a library that was no success before the first one. -/
theorem afterRound_of_failure (hr : ∀ r, r? = some r → r.isSuccess = false)
    (h : e?.any (·.isSuccess) = false) :
    let once := afterReading storage (afterFallback name document? (noted r? e?))
    afterReading storage (afterFallback name document? (noted r? once)) = once := by
  intro once
  have hnoted : (noted r? e?).any (·.isSuccess) = false := (any_isSuccess_noted hr e?).trans h
  cases document? with
  | none =>
    have honce : once = noted r? e? := by
      unfold once
      rw [afterFallback_of_none, afterReading_of_failure hnoted]
    rw [afterFallback_of_none, honce, noted_noted hr, afterReading_of_failure hnoted]
  | some document =>
    cases hread : readDocument storage document with
    | error message =>
      have honce : once = some (.failed name message) := afterReading_stoodIn hnoted hread
      rw [honce]
      exact afterReading_stoodIn (any_isSuccess_noted hr _) hread
    | ok outline =>
      have hnot : ∀ message, ¬ Stale storage (stoodIn name document (noted r? e?)) message := by
        intro message hstale
        rw [stale_stoodIn_iff, hread] at hstale
        cases hstale
      have honce : once = some (stoodIn name document (noted r? e?)) := by
        unfold once
        rw [afterFallback_of_failure hnoted]
        exact congrArg some (loadEntry_of_not_stale hnot)
      -- it carries the message of the failure already
      have hmessage : ∀ r, r? = some r → (stoodIn name document (noted r? e?)).message = r.message :=
        fun r hr' => message_noted hr e? hr'
      rw [honce, noted_of_message hr rfl hmessage, afterFallback_of_success rfl]
      exact congrArg some (loadEntry_of_not_stale hnot)

/-- A success that is not lost comes out of a second round as of the first. -/
theorem afterRound_of_success (hr : ∀ r, r? = some r → r ∈ reported ∧ r.name = name ∧ r.isSuccess = false)
    (hfailures : ∀ r ∈ reported, r.name = name → r.isSuccess = false) (he : e.isSuccess = true)
    (hname : e.name = name) (hlost : ¬ Lost storage reported name document? (some e)) :
    let once := afterReading storage (afterFallback name document? (noted r? (some e)))
    afterReading storage (afterFallback name document? (noted r? once)) = once := by
  intro once
  have hfailure : ∀ r, r? = some r → r.isSuccess = false := fun r h => (hr r h).2.2
  obtain ⟨kept, hkept, hsuccess, hdocument, hkeptName⟩ : ∃ kept, noted r? (some e) = some kept ∧
      kept.isSuccess = true ∧ kept.document = e.document ∧ kept.name = e.name := by
    cases r? with
    | none => exact ⟨e, rfl, he, rfl, rfl⟩
    | some r =>
      exact ⟨{ e with message := r.message }, by simp [noted, mergedInto, hfailure r rfl, he], he, rfl, rfl⟩
  have honce : once = some (loadEntry storage kept).1 := by
    unfold once
    rw [hkept, afterFallback_of_success hsuccess]
    rfl
  by_cases hstale : ∃ message, Stale storage kept message
  · obtain ⟨message, hstale⟩ := hstale
    have hnone : once = some (.failed name message) := by
      rw [honce, loadEntry_of_stale hstale, hkeptName, hname]
    have hbefore : Stale storage e message := ⟨he, hdocument ▸ hstale.2⟩
    have hnoted : (noted r? (some (.failed name message))).any (·.isSuccess) = false :=
      any_isSuccess_noted hfailure _
    rw [hnone]
    -- the second round meets a failure; as the library is not lost, what it does is what was done
    cases document? with
    | some document =>
      have hread : readDocument storage document = .error message := by
        by_contra hread
        exact hlost ⟨e, message, rfl, hbefore, hfailures, hread⟩
      exact afterReading_stoodIn hnoted hread
    | none =>
      have hsilent : r? = none := by
        cases r? with
        | none => rfl
        | some r =>
          obtain ⟨hmem, hrname, -⟩ := hr r rfl
          exact absurd ⟨e, message, rfl, hbefore, hfailures, r, hmem, hrname⟩ hlost
      subst hsilent
      exact afterReading_of_failure hnoted
  · -- the success is kept, with the message of the failure in it
    have hnot : ∀ message, ¬ Stale storage kept message := fun message h => hstale ⟨message, h⟩
    have hmessage : ∀ r, r? = some r → kept.message = r.message := by
      intro r h
      rw [← message_noted hfailure (some e) h, hkept]
      rfl
    rw [honce, loadEntry_of_not_stale hnot, noted_of_message hfailure hsuccess hmessage,
      afterFallback_of_success hsuccess]
    exact congrArg some (loadEntry_of_not_stale hnot)

/-- A second round leaves every entry alone that is not lost. -/
theorem afterRound_afterRound (hname : ∀ e, e? = some e → e.name = name)
    (hlost : ¬ Lost storage reported name document? e?) :
    afterRound storage reported name document? (afterRound storage reported name document? e?) =
      afterRound storage reported name document? e? := by
  by_cases hreported : ∃ r ∈ reported, r.name = name ∧ r.isSuccess = true
  · unfold afterRound
    rw [afterReports_congr hreported _ e?]
  · -- only failures are reported, and they come down to the last one
    have hfailures : ∀ r ∈ reported, r.name = name → r.isSuccess = false :=
      fun r hr hrname => by simpa using fun h => hreported ⟨r, hr, hrname, h⟩
    obtain ⟨r?, hr, hnoted⟩ := exists_noted hfailures
    simp only [afterRound, hnoted]
    cases hsuccess : e?.any (·.isSuccess) with
    | false => exact afterRound_of_failure (fun r h => (hr r h).2.2) hsuccess
    | true =>
      obtain ⟨e, rfl, he⟩ := (Option.any_eq_true _ _).mp hsuccess
      exact afterRound_of_success hr hfailures he (hname e rfl) hlost

end SecondRound

/-! ## A second round of the cache -/

/-- A round that finds the entry of each name again leaves the cache as it is. -/
theorem entries_eq_of_initial (hnodup : d.names.Nodup) (hinitial : c.names <+: d.names)
    (hentry : ∀ name, d.entry? name = c.entry? name) : d.entries = c.entries := by
  have hnames : c.names = d.names := by
    obtain ⟨more, hmore⟩ := hinitial
    have hnone : more = [] := by
      refine List.eq_nil_iff_forall_not_mem.mpr fun name hname => ?_
      have hold : name ∈ c.names := by
        rw [← isSome_entry?_iff, ← hentry, isSome_entry?_iff, ← hmore]
        exact List.mem_append_right _ hname
      rw [← hmore] at hnodup
      exact List.disjoint_of_nodup_append hnodup hold hname
    rw [← hmore, hnone, List.append_nil]
  rw [entries_eq_filterMap hnodup, entries_eq_filterMap (hnames ▸ hnodup), hnames, funext hentry]

variable (c storage asked) in
/-- The loaded libraries are those whose documents can be read of the entries that come out. -/
theorem loaded_round (acquisition : Acquisition) :
    (c.round storage asked acquisition).2 =
      (c.round storage asked acquisition).1.entries.filterMap fun e => (loadEntry storage e).2 := by
  simp [round, load, List.filterMap_map, Function.comp_def, loadEntry_loadEntry]

/-- Where no library is lost, a second round with the same answer changes nothing and loads the same. -/
theorem round_round (hnodup : c.names.Nodup) {acquisition : Acquisition}
    (hlost : ∀ name, ¬ Lost storage acquisition.libraries name (c.standIn? asked name) (c.entry? name)) :
    (c.round storage asked acquisition).1.round storage asked acquisition =
      c.round storage asked acquisition := by
  let once := (c.round storage asked acquisition).1
  -- entry by entry, and then the whole cache, since no name is added or moved
  change once.round storage asked acquisition = c.round storage asked acquisition
  have hstandIn : ∀ name, once.standIn? asked name = c.standIn? asked name := by
    intro name
    rw [standIn?, fallback?, fallbacks_round, standIn?, fallback?]
  have hentry : ∀ name,
      LibraryCache.entry? (once.round storage asked acquisition).1 name = once.entry? name := by
    intro name
    rw [entry?_round, hstandIn, entry?_round]
    exact afterRound_afterRound (fun e => name_eq_of_found) (hlost name)
  have hentries : (once.round storage asked acquisition).1.entries = once.entries :=
    entries_eq_of_initial (nodup_round _ _ _ (nodup_round _ _ _ hnodup)) (initial_round _ _ _ _) hentry
  have hcache : (once.round storage asked acquisition).1 = once := by
    have hfallbacks := fallbacks_round once storage asked acquisition
    have henvironment := environment_round once storage asked acquisition
    rw [← environment_round c storage asked acquisition] at henvironment
    exact LibraryCache.ext hentries hfallbacks henvironment
  refine Prod.ext hcache ?_
  rw [loaded_round, hcache, loaded_round]

/-! ## Asking -/

/-- Registers a document in a table of fallbacks. -/
def register (fallbacks : List (String × Path)) (document : Path) : List (String × Path) :=
  match document.stem? with
  | some name => putNamed name document fallbacks
  | none => fallbacks

theorem addFallback_eq (c : LibraryCache) (document : Path) :
    c.addFallback document = { c with fallbacks := register c.fallbacks document } := by
  unfold addFallback register
  cases document.stem? <;> rfl

theorem addFallbacks_eq (c : LibraryCache) (documents : List Path) :
    c.addFallbacks documents = { c with fallbacks := documents.foldl register c.fallbacks } := by
  induction documents generalizing c with
  | nil => rfl
  | cons document rest ih =>
    change (c.addFallback document).addFallbacks rest = _
    rw [ih, addFallback_eq]
    rfl

/-- Makes a cache ready for a request: registers the documents that come with the program and those of the
projects, and forgets libraries that are not asked for. -/
def prepared (c : LibraryCache) (bundled documents : List Path) (asked : List String) : LibraryCache :=
  ((c.clearFallbacks.addFallbacks bundled).addFallbacks documents).keepOnly asked

theorem prepared_eq (c : LibraryCache) (bundled documents : List Path) (asked : List String) :
    c.prepared bundled documents asked =
      { c with
        entries := c.entries.filter fun e => asked.contains e.name
        fallbacks := documents.foldl register (bundled.foldl register []) } := by
  rw [prepared, addFallbacks_eq, addFallbacks_eq]
  rfl

theorem nodup_prepared (h : c.names.Nodup) (bundled documents : List Path) (asked : List String) :
    (c.prepared bundled documents asked).names.Nodup := by
  rw [prepared_eq]
  exact (List.filter_sublist.map _).nodup h

theorem mem_asked_of_prepared {bundled documents : List Path}
    (h : name ∈ (c.prepared bundled documents asked).names) : name ∈ asked := by
  rw [prepared_eq] at h
  obtain ⟨e, he, rfl⟩ := List.mem_map.mp h
  simpa using (List.mem_filter.mp he).2

/-- A round brings no libraries but those that were asked for or reported. -/
theorem mem_names_of_round {acquisition : Acquisition}
    (h : name ∈ (c.round storage asked acquisition).1.names) :
    name ∈ c.names ∨ name ∈ asked ∨ ∃ e ∈ acquisition.libraries, e.name = name := by
  by_contra hno
  simp only [not_or, not_exists, not_and] at hno
  obtain ⟨hcached, hasked, hreported⟩ := hno
  have hnone : c.entry? name = none := by rwa [← Option.not_isSome_iff_eq_none, isSome_entry?_iff]
  have hsilent : acquisition.libraries.filter (·.name = name) = [] :=
    List.filter_eq_nil_iff.mpr fun e he => by simpa using hreported e he
  have hround : LibraryCache.entry? (c.round storage asked acquisition).1 name = none := by
    rw [entry?_round, hnone, standIn?, if_neg hasked, afterRound, afterReports, hsilent]
    rfl
  rw [← isSome_entry?_iff, hround] at h
  cases h

/-- A round about the asked libraries brings no other. -/
theorem mem_asked_of_round (hnames : ∀ name ∈ c.names, name ∈ asked) {acquisition : Acquisition}
    (hreported : ∀ e ∈ acquisition.libraries, e.name ∈ asked)
    (h : name ∈ (c.round storage asked acquisition).1.names) : name ∈ asked := by
  rcases mem_names_of_round h with hcached | hasked | ⟨e, he, rfl⟩
  · exact hnames name hcached
  · exact hasked
  · exact hreported e he

/-- After a round the cache is ready for the same request. -/
theorem prepared_round (c : LibraryCache) (storage : Storage) (bundled documents : List Path)
    {acquisition : Acquisition}
    (hreported : ∀ e ∈ acquisition.libraries, e.name ∈ asked) :
    let after := ((c.prepared bundled documents asked).round storage asked acquisition).1
    after.prepared bundled documents asked = after := by
  intro after
  have hentries : after.entries.filter (fun e => asked.contains e.name) = after.entries := by
    refine List.filter_eq_self.mpr fun e he => ?_
    have hmem : e.name ∈ asked :=
      mem_asked_of_round (fun _ => mem_asked_of_prepared) hreported (List.mem_map_of_mem he)
    simpa using hmem
  have hregistered : (c.prepared bundled documents asked).fallbacks =
      documents.foldl register (bundled.foldl register []) := by rw [prepared_eq]
  have hfallbacks : after.fallbacks = documents.foldl register (bundled.foldl register []) :=
    (fallbacks_round _ _ _ _).trans hregistered
  rw [prepared_eq]
  exact LibraryCache.ext hentries hfallbacks.symm rfl

end KeywordIndex.LibraryCache
