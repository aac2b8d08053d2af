import KeywordIndex.Proofs.Library.Cache

namespace KeywordIndex

/-! # What the reports of a round leave

Of each library that is asked for, its cached entry and the reports of a round leave at most one success:
the last one reported, or else the cached one. Failures reported after it only change its message
(`LibraryCache.afterReports_of_lastSuccess`). Where there is no success, the last registered document that
is named for the library stands in (`LibraryCache.successes_kept_gaps_filled`).
-/

/-- The entry with the message of a failure, if there was one. -/
def LibraryEntry.noting (e : LibraryEntry) (failure? : Option LibraryEntry) : LibraryEntry :=
  match failure? with
  | some failure => { e with message := failure.message }
  | none => e

@[simp] theorem LibraryEntry.isSuccess_noting (e : LibraryEntry) (failure? : Option LibraryEntry) :
    (e.noting failure?).isSuccess = e.isSuccess := by
  cases failure? <;> rfl

@[simp] theorem LibraryEntry.document_noting (e : LibraryEntry) (failure? : Option LibraryEntry) :
    (e.noting failure?).document = e.document := by
  cases failure? <;> rfl

/-- The reports on a library, in order. -/
def reportsOn (reported : List LibraryEntry) (name : String) : List LibraryEntry :=
  reported.filter (·.name = name)

/-- The last success among the reports on a library, or else the cached one, and the failures that were
reported after it. -/
inductive LastSuccess (reports : List LibraryEntry) (cached? : Option LibraryEntry) :
    LibraryEntry → List LibraryEntry → Prop where
  | reported {before failures : List LibraryEntry} {e : LibraryEntry}
      (hreports : reports = before ++ e :: failures) (hsuccess : e.isSuccess = true)
      (hfailures : ∀ r ∈ failures, r.isSuccess = false) : LastSuccess reports cached? e failures
  | cached {e : LibraryEntry} (hcached : cached? = some e) (hsuccess : e.isSuccess = true)
      (hfailures : ∀ r ∈ reports, r.isSuccess = false) : LastSuccess reports cached? e reports

theorem LastSuccess.isSuccess {reports failures : List LibraryEntry} {cached? : Option LibraryEntry}
    {e : LibraryEntry} (h : LastSuccess reports cached? e failures) : e.isSuccess = true := by
  cases h <;> assumption

/-- The last of some documents that is named for the library. -/
def lastNamed? (documents : List Path) (name : String) : Option Path :=
  (documents.filter (·.stem? = some name)).getLast?

namespace LibraryCache

variable {c : LibraryCache} {name : String} {asked : List String} {reported : List LibraryEntry}
  {cached? : Option LibraryEntry}

/-! ## Successes -/

/-- If a success is cached or reported, one is the last. -/
theorem exists_lastSuccess {reports : List LibraryEntry}
    (h : cached?.any (·.isSuccess) = true ∨ ∃ r ∈ reports, r.isSuccess = true) :
    ∃ e failures, LastSuccess reports cached? e failures := by
  by_cases hreported : ∃ r ∈ reports, r.isSuccess = true
  · -- cut the reports before the failures at their end
    obtain ⟨e, he⟩ : ∃ e, reports.reverse.find? (·.isSuccess) = some e := by
      rw [← Option.isSome_iff_exists, List.find?_isSome]
      simpa using hreported
    obtain ⟨hsuccess, after, before, hreports, hfailures⟩ := List.find?_eq_some_iff_append.mp he
    have hcut : reports = before.reverse ++ e :: after.reverse := by
      rw [← List.reverse_inj, hreports]
      simp
    refine ⟨e, after.reverse, .reported hcut hsuccess fun r hr => ?_⟩
    simpa using hfailures r (List.mem_reverse.mp hr)
  · obtain ⟨e, hcached, hsuccess⟩ := (Option.any_eq_true _ _).mp (h.resolve_right hreported)
    exact ⟨e, reports, .cached hcached hsuccess fun r hr => by simpa using fun h => hreported ⟨r, hr, h⟩⟩

theorem noted_success {e : LibraryEntry} (he : e.isSuccess = true) {failure? : Option LibraryEntry}
    (hfailure : ∀ r, failure? = some r → r.isSuccess = false) :
    noted failure? (some e) = some (e.noting failure?) := by
  cases failure? with
  | none => rfl
  | some failure => simp [noted, mergedInto, hfailure failure rfl, he, LibraryEntry.noting]

/-- The reports leave the last success, with the message of the last failure after it. -/
theorem afterReports_of_lastSuccess {e : LibraryEntry} {failures : List LibraryEntry}
    (h : LastSuccess (reportsOn reported name) cached? e failures) :
    afterReports reported name cached? = some (e.noting failures.getLast?) := by
  change (reportsOn reported name).foldl (fun old? e => some (mergedInto old? e)) cached? = _
  cases h with
  | reported hreports hsuccess hfailures =>
    have hfirst : ∀ old?, mergedInto old? e = e := by
      intro old?
      cases old? <;> simp [mergedInto, hsuccess]
    rw [hreports, List.foldl_append, List.foldl_cons, hfirst, foldl_mergedInto hfailures]
    exact noted_success hsuccess fun r hr => hfailures r (List.mem_of_getLast? hr)
  | cached hcached hsuccess hfailures =>
    rw [hcached, foldl_mergedInto hfailures]
    exact noted_success hsuccess fun r hr => hfailures r (List.mem_of_getLast? hr)

/-- Where no success is cached or reported there is none afterwards, and the last message stays. -/
theorem afterReports_of_failures
    (h : ¬ (cached?.any (·.isSuccess) = true ∨ ∃ r ∈ reportsOn reported name, r.isSuccess = true)) :
    (afterReports reported name cached?).any (·.isSuccess) = false ∧
      (afterReports reported name cached?).bind (·.message) =
        match (reportsOn reported name).getLast? with
        | some failure => failure.message
        | none => cached?.bind (·.message) := by
  have hcached : cached?.any (·.isSuccess) = false := by simpa using fun hcached => h (Or.inl hcached)
  have hfailures : ∀ r ∈ reportsOn reported name, r.isSuccess = false :=
    fun r hr => by simpa using fun hsuccess => h (Or.inr ⟨r, hr, hsuccess⟩)
  have hnoted : afterReports reported name cached? = noted (reportsOn reported name).getLast? cached? :=
    foldl_mergedInto hfailures cached?
  have hlast : ∀ r, (reportsOn reported name).getLast? = some r → r.isSuccess = false :=
    fun r hr => hfailures r (List.mem_of_getLast? hr)
  rw [hnoted]
  refine ⟨(any_isSuccess_noted hlast cached?).trans hcached, ?_⟩
  cases hfailure : (reportsOn reported name).getLast? with
  | none => rfl
  | some failure => exact message_noted (fun r hr => hlast r (hfailure.trans hr)) cached? rfl

/-! ## Registered documents -/

theorem lookup_putNamed {α : Type} (key name : String) (value : α) (table : List (String × α)) :
    (putNamed key value table).lookup name = if key = name then some value else table.lookup name := by
  induction table with
  | nil =>
    rw [putNamed, List.lookup_cons, List.lookup_nil]
    by_cases h : key = name
    · simp [h]
    · have hne : (name == key) = false := by simpa using Ne.symm h
      simp [h, hne]
  | cons entry rest ih =>
    rw [putNamed]
    split <;> grind

theorem lookup_register (table : List (String × Path)) (document : Path) (name : String) :
    (register table document).lookup name =
      if document.stem? = some name then some document else table.lookup name := by
  unfold register
  cases hstem : document.stem? with
  | none => simp
  | some stem => simp [lookup_putNamed]

theorem lastNamed?_cons (document : Path) (rest : List Path) (name : String) :
    lastNamed? (document :: rest) name =
      (lastNamed? rest name).or (if document.stem? = some name then some document else none) := by
  unfold lastNamed?
  by_cases h : document.stem? = some name
  · rw [List.filter_cons_of_pos (by simpa using h), List.getLast?_cons, if_pos h]
    cases (rest.filter (·.stem? = some name)).getLast? <;> rfl
  · rw [List.filter_cons_of_neg (by simpa using h), if_neg h, Option.or_none]

/-- Registering documents makes the last one that is named for a library stand in for it. -/
theorem lookup_foldl_register (documents : List Path) (table : List (String × Path)) (name : String) :
    (documents.foldl register table).lookup name =
      (lastNamed? documents name).or (table.lookup name) := by
  induction documents generalizing table with
  | nil => rfl
  | cons document rest ih =>
    rw [List.foldl_cons, ih, lookup_register, lastNamed?_cons, Option.or_assoc]
    split <;> rfl

theorem lastNamed?_isSome_iff (documents : List Path) (name : String) :
    (lastNamed? documents name).isSome = true ↔ ∃ document ∈ documents, document.stem? = some name := by
  simp [lastNamed?]

/-! ## A round before its documents are read -/

theorem entry?_keepOnly (c : LibraryCache) (h : name ∈ asked) :
    LibraryCache.entry? (c.keepOnly asked) name = c.entry? name := by
  simp only [keepOnly, entry?, List.find?_filter]
  congr 1
  funext e
  by_cases hname : e.name = name <;> simp [hname, h]

variable (c) in
/-- What a library comes to once the reports are merged and documents stand in. -/
theorem entry?_standing (documents : List Path) (acquisition : Acquisition) (h : name ∈ asked) :
    LibraryCache.entry?
        ((((c.clearFallbacks.addFallbacks documents).keepOnly asked).apply acquisition).1.applyFallbacks
          asked) name =
      afterFallback name (lastNamed? documents name)
        (afterReports acquisition.libraries name (c.entry? name)) := by
  let ready := (c.clearFallbacks.addFallbacks documents).keepOnly asked
  have hentry : ready.entry? name = c.entry? name := by
    refine (entry?_keepOnly _ h).trans ?_
    rw [addFallbacks_eq]
    rfl
  have hfallback : ready.standIn? asked name = lastNamed? documents name := by
    have hregistered : ready.fallbacks = documents.foldl register [] := by
      change (c.clearFallbacks.addFallbacks documents).fallbacks = _
      rw [addFallbacks_eq]
      rfl
    rw [standIn?, if_pos h, fallback?, hregistered, lookup_foldl_register]
    exact Option.or_none
  rw [entry?_applied, hentry, hfallback]

/-- Whatever a cache holds, after a round that registers some documents, forgets libraries that are not
asked for, merges reports in and lets documents stand in: if a success of an asked library was cached or
reported, the last reported success is its entry, or else the cached one, with the message of the last
failure that was reported after it. Otherwise it is a success exactly if a registered document is named for
it; the last such document then stands in, with the message of the last reported failure, or else the
cached one. -/
theorem successes_kept_gaps_filled (c : LibraryCache) (documents : List Path) {asked : List String}
    (acquisition : Acquisition) {name : String} (hname : name ∈ asked) :
    let later :=
      (((c.clearFallbacks.addFallbacks documents).keepOnly asked).apply acquisition).1.applyFallbacks asked
    let reports := reportsOn acquisition.libraries name
    let cached? := c.entry? name
    let hasSuccess := cached?.any (·.isSuccess) = true ∨ ∃ r ∈ reports, r.isSuccess = true
    (hasSuccess → ∃ e failures, LastSuccess reports cached? e failures) ∧
    (∀ e failures, LastSuccess reports cached? e failures →
      later.entry? name = some (e.noting failures.getLast?) ∧ e.isSuccess = true) ∧
    (¬ hasSuccess →
      ((∃ e, later.entry? name = some e ∧ e.isSuccess = true) ↔
        ∃ document ∈ documents, document.stem? = some name) ∧
      ∀ document, lastNamed? documents name = some document →
        later.entry? name = some
          { LibraryEntry.fallback name document with
            message :=
              match reports.getLast? with
              | some failure => failure.message
              | none => cached?.bind (·.message) }) := by
  intro later reports cached? hasSuccess
  have hlater : later.entry? name = afterFallback name (lastNamed? documents name)
      (afterReports acquisition.libraries name cached?) := entry?_standing c documents acquisition hname
  refine ⟨exists_lastSuccess, fun e failures hlast => ?_, fun hnone => ?_⟩
  · refine ⟨?_, hlast.isSuccess⟩
    rw [hlater, afterReports_of_lastSuccess hlast]
    exact afterFallback_of_success (by simpa using hlast.isSuccess)
  · obtain ⟨hno, hmessage⟩ := afterReports_of_failures hnone
    constructor
    · rw [← lastNamed?_isSome_iff, hlater]
      cases lastNamed? documents name with
      | none =>
        refine iff_of_false ?_ (by simp)
        rintro ⟨e, he, hsuccess⟩
        rw [afterFallback_of_none] at he
        simp [he, hsuccess] at hno
      | some document =>
        rw [afterFallback_of_failure hno]
        exact iff_of_true ⟨_, rfl, rfl⟩ rfl
    · intro document hdocument
      rw [hlater, hdocument, afterFallback_of_failure hno, stoodIn, hmessage]

/-- A cache with a success and a failure. -/
def mixed : LibraryCache :=
  (({} : LibraryCache).put
    { name := "BuiltIn", status := .success, document := some ⟨"/gen/BuiltIn.xml"⟩ }).put
      (.failed "Collections" "cached")

/-- Failures, one of them pending, and a success that was not asked for. -/
def mixedReports : Acquisition where
  libraries :=
    [.failed "BuiltIn" "timeout", .failed "Collections" "first",
      { name := "Collections", status := .pending, message := some "second" },
      { name := "Other", status := .success, document := some ⟨"/gen/Other.xml"⟩ }]
  environment := {}

/-- Two documents for one library and one for another. -/
def mixedDocuments : List Path :=
  [⟨"/a/Collections.xml"⟩, ⟨"/b/BuiltIn.xml"⟩, ⟨"/b/Collections.xml"⟩]

/-- The success keeps its document, and of two documents named for the failure the last stands in. -/
theorem gaps_filled_mixed :
    "BuiltIn" ∈ ["BuiltIn", "Collections"] ∧ "Collections" ∈ ["BuiltIn", "Collections"] ∧
      let later :=
        (((mixed.clearFallbacks.addFallbacks mixedDocuments).keepOnly ["BuiltIn", "Collections"]).apply
          mixedReports).1.applyFallbacks ["BuiltIn", "Collections"]
      later.entry? "BuiltIn" = some
        { name := "BuiltIn", status := .success, document := some ⟨"/gen/BuiltIn.xml"⟩
          message := some "timeout" } ∧
      later.entry? "Collections" = some
        { name := "Collections", status := .success, document := some ⟨"/b/Collections.xml"⟩
          isFallback := true, message := some "second" } := by
  have hbase : "BuiltIn" ∈ ["BuiltIn", "Collections"] := by simp
  have hother : "Collections" ∈ ["BuiltIn", "Collections"] := by simp
  refine ⟨hbase, hother, ?_, ?_⟩
  · obtain ⟨-, hkept, -⟩ := successes_kept_gaps_filled mixed mixedDocuments mixedReports hbase
    have hlast : LastSuccess (reportsOn mixedReports.libraries "BuiltIn") (mixed.entry? "BuiltIn")
        { name := "BuiltIn", status := .success, document := some ⟨"/gen/BuiltIn.xml"⟩ }
        (reportsOn mixedReports.libraries "BuiltIn") :=
      .cached (by decide) rfl (by decide)
    exact (hkept _ _ hlast).1
  · obtain ⟨-, -, hfilled⟩ := successes_kept_gaps_filled mixed mixedDocuments mixedReports hother
    exact (hfilled (by decide)).2 ⟨"/b/Collections.xml"⟩ (by decide +kernel)

end LibraryCache

end KeywordIndex
