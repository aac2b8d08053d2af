import KeywordIndex.Proofs.Index.Consistency
import KeywordIndex.Proofs.Text.ByteOrder
import KeywordIndex.Query.Suggestion
import Mathlib.Data.Prod.Lex

namespace KeywordIndex

open Text

/-! # Which keywords are suggested, and in which order

A query suggests the keywords that are `Eligible`: they lie in the scope, are visible to the current file
and have a score. `Precedes` is their order, and its last level, the place in the file, comes from nothing
but the stability of the sort. The order is strict, so the eligible keywords can be listed in one way only,
and a query gives the first of them (`suggests_first_eligible`).
-/

/-! ## Stable sorting -/

section Sorting

variable {α κ : Type} [LinearOrder κ] (key : α → κ)

/-- Elements with one key stay in the order in which they were. -/
theorem filter_mergeSort (l : List α) (k : κ) :
    (l.mergeSort fun a b => key a ≤ key b).filter (key · = k) = l.filter (key · = k) := by
  have hperm := (l.mergeSort_perm fun a b => key a ≤ key b).filter (key · = k)
  have hsub : (l.filter (key · = k)).Sublist (l.mergeSort fun a b => key a ≤ key b) := by
    refine List.sublist_mergeSort (fun a b c => ?_) (fun a b => ?_) ?_ List.filter_sublist
    · simpa using le_trans
    · simpa using le_total (key a) (key b)
    · refine List.pairwise_of_forall_mem_list fun a ha b hb => ?_
      have ha := (List.mem_filter.mp ha).2
      have hb := (List.mem_filter.mp hb).2
      simp only [decide_eq_true_eq] at ha hb ⊢
      exact (ha.trans hb.symm).le
  -- a part of the sorted list that has all the elements with the key
  have hfiltered := hsub.filter (key · = k)
  simp only [List.filter_filter, Bool.and_self] at hfiltered
  exact (hfiltered.eq_of_length hperm.length_eq.symm).symm

/-- A sorted list is ordered by key, and among equal keys as the list was. -/
theorem pairwise_mergeSort {R : α → α → Prop} {l : List α}
    (h : l.Pairwise fun a b => key a = key b → R a b) :
    (l.mergeSort fun a b => key a ≤ key b).Pairwise fun a b =>
      key a < key b ∨ key a = key b ∧ R a b := by
  refine List.pairwise_iff_forall_sublist.mpr fun {a b} hsub => ?_
  have hle : key a ≤ key b := by
    have hsorted : (l.mergeSort fun a b => key a ≤ key b).Pairwise fun a b =>
        decide (key a ≤ key b) = true :=
      List.pairwise_mergeSort (fun a b c => by simpa using le_trans)
        (fun a b => by simpa using le_total (key a) (key b)) l
    simpa using List.pairwise_iff_forall_sublist.mp hsorted hsub
  rcases hle.lt_or_eq with hlt | heq
  · exact Or.inl hlt
  · -- both are among the elements with one key, which the sort has not moved
    have hfiltered := hsub.filter (key · = key b)
    rw [filter_mergeSort] at hfiltered
    simp only [List.filter_cons, heq, decide_true, if_true, List.filter_nil] at hfiltered
    exact Or.inr ⟨heq, List.pairwise_iff_forall_sublist.mp h (hfiltered.trans List.filter_sublist) heq⟩

end Sorting

/-! ## The order of matches -/

namespace Query

/-- What ranks a match: the score, the highest first; records displayed by the stem of the current path
before others; the bytes of the name; the bytes of the key. -/
def Match.place (currentName : Option String) (m : Match) : Int ×ₗ Bool ×ₗ List Nat ×ₗ List Nat :=
  toLex (-rank m.score, toLex (!(currentName == some m.file.displayName),
    toLex (bytesOf m.keyword.name, bytesOf m.file.key.text)))

/-- The order of suggestions: matches of one rank, which are of one record, by their places there. -/
def Precedes (currentName : Option String) (a b : Match) : Prop :=
  toLex (a.place currentName, a.keyword.id.ordinal) < toLex (b.place currentName, b.keyword.id.ordinal)

/-- A keyword that a query may suggest, with its score. -/
structure Eligible (index : Index) (current : Option SourceFile) (scope : Scope) (m : Match) : Prop where
  file_mem : m.file ∈ index.files
  searched : scope.candidates.contains m.file.key = true
  placed : m.file.keywords[m.keyword.id.ordinal]? = some m.keyword
  visible : m.keyword.isLocal = true → current = some m.file
  scored : score? scope.query m.keyword.name.toList = some m.score

variable {currentName : Option String} {index : Index} {current : Option SourceFile} {scope : Scope}
  {a b m : Match}

theorem precedes_iff : Precedes currentName a b ↔ a.place currentName < b.place currentName ∨
    a.place currentName = b.place currentName ∧ a.keyword.id.ordinal < b.keyword.id.ordinal :=
  Prod.Lex.toLex_lt_toLex

theorem key_eq_of_place_eq (h : a.place currentName = b.place currentName) :
    a.file.key = b.file.key := by
  simp only [Match.place, EmbeddingLike.apply_eq_iff_eq, Prod.mk.injEq, bytesOf_inj] at h
  obtain ⟨-, -, -, htext⟩ := h
  cases hkey : a.file.key
  cases hother : b.file.key
  simp_all

/-- Matches are compared by their ranks. -/
theorem compareMatches_eq_gt_iff :
    compareMatches currentName a b = .gt ↔ b.place currentName < a.place currentName := by
  have hnot : ∀ x y : Bool, (!x) < (!y) ↔ y < x := by decide
  have hinj : ∀ x y : Bool, (!x) = (!y) ↔ x = y := by decide
  simp only [compareMatches, Match.place, Ordering.then_eq_gt, compare_gt_iff_gt, compare_eq_iff_eq,
    Prod.Lex.toLex_lt_toLex, bytesOf_lt_iff, bytesOf_inj, Int.neg_lt_neg_iff, Int.neg_inj, hnot, hinj]
  simp only [eq_comm]

theorem ranked_eq (currentName : Option String) (found : List Match) :
    ranked currentName found =
      found.mergeSort fun a b => a.place currentName ≤ b.place currentName := by
  unfold ranked
  congr 1
  funext a b
  rw [Bool.eq_iff_iff, decide_eq_true_eq, bne_iff_ne, Ne, compareMatches_eq_gt_iff, not_lt]

/-! ## Eligible keywords -/

/-- The score of a keyword is that of its name. -/
theorem Eligible.eq_of_keyword (ha : Eligible index current scope a) (hb : Eligible index current scope b)
    (hfile : a.file = b.file) (hkeyword : a.keyword = b.keyword) : a = b := by
  obtain ⟨f, k, score⟩ := a
  obtain ⟨g, l, other⟩ := b
  simp only at hfile hkeyword
  subst hfile hkeyword
  obtain rfl := Option.some.inj (ha.scored.symm.trans hb.scored)
  rfl

section Eligibility

variable (h : index.Consistent) (hcurrent : ∀ f, current = some f → f ∈ index.files)
include h hcurrent

/-- A keyword is visible if it is not local, or is one of the current file. -/
theorem isVisible_iff {f : SourceFile} (hf : f ∈ index.files) {k : Keyword} (hk : k ∈ f.keywords) :
    isVisible current k = true ↔ (k.isLocal = true → current = some f) := by
  have hany : current.any (·.key == k.id.file) = true ↔ current = some f := by
    rw [(h.numbered f hf).file_eq hk, Option.any_eq_true]
    constructor
    · rintro ⟨g, hg, hkey⟩
      rw [hg, h.eq_of_key_eq (hcurrent g hg) hf (by simpa using hkey)]
    · exact fun hf => ⟨f, hf, by simp⟩
  unfold isVisible
  rw [Bool.or_eq_true, Bool.not_eq_true', hany]
  cases k.isLocal <;> simp

theorem mem_matchesIn_iff : m ∈ matchesIn index current scope ↔ Eligible index current scope m := by
  simp only [matchesIn, List.mem_flatMap, List.mem_filter, List.mem_filterMap]
  constructor
  · rintro ⟨f, ⟨hf, hsearched⟩, k, hk, hm⟩
    split at hm
    · next hvisible =>
      obtain ⟨score, hscore, rfl⟩ := Option.map_eq_some_iff.mp hm
      obtain ⟨i, hi⟩ := List.mem_iff_getElem?.mp hk
      have hplaced : f.keywords[k.id.ordinal]? = some k := by rw [h.numbered f hf i k hi, hi]
      exact ⟨hf, hsearched, hplaced, (isVisible_iff h hcurrent hf hk).mp hvisible, hscore⟩
    · cases hm
  · intro hm
    have hk := List.mem_of_getElem? hm.placed
    refine ⟨m.file, ⟨hm.file_mem, hm.searched⟩, m.keyword, hk, ?_⟩
    rw [if_pos ((isVisible_iff h hcurrent hm.file_mem hk).mpr hm.visible), hm.scored]
    rfl

end Eligibility

/-- Matches of one rank are of one record, and stand in it in their order. -/
theorem pairwise_matchesIn (h : index.Consistent) :
    (matchesIn index current scope).Pairwise fun a b =>
      a.place currentName = b.place currentName → a.keyword.id.ordinal < b.keyword.id.ordinal := by
  have hmatch : ∀ (f : SourceFile) (k : Keyword) (m : Match),
      (if isVisible current k then
        (score? scope.query k.name.toList).map fun score => (⟨f, k, score⟩ : Match)
      else none) = some m → m.file = f ∧ m.keyword = k := by
    intro f k m hm
    split at hm
    · obtain ⟨score, -, rfl⟩ := Option.map_eq_some_iff.mp hm
      exact ⟨rfl, rfl⟩
    · cases hm
  -- in one record keywords are numbered in their order; two records differ in the key, so in the place
  refine List.pairwise_flatMap.mpr ⟨fun f hf => ?_, ?_⟩
  · have hnumbered := h.numbered f (List.mem_of_mem_filter hf)
    refine List.pairwise_filterMap.mpr (hnumbered.pairwise_ordinal.imp fun {k l} hlt a ha b hb _ => ?_)
    rw [(hmatch f k a ha).2, (hmatch f l b hb).2]
    exact hlt
  · have hkeys := List.pairwise_map.mp h.keys_nodup
    refine (hkeys.filter _).imp fun {f g} hne a ha b hb hplace => absurd ?_ hne
    obtain ⟨k, -, ha⟩ := List.mem_filterMap.mp ha
    obtain ⟨l, -, hb⟩ := List.mem_filterMap.mp hb
    have hkey := key_eq_of_place_eq hplace
    rwa [(hmatch f k a ha).1, (hmatch g l b hb).1] at hkey

theorem pairwise_ranked (h : index.Consistent) :
    (ranked currentName (matchesIn index current scope)).Pairwise (Precedes currentName) := by
  rw [ranked_eq]
  exact (pairwise_mergeSort (Match.place currentName) (pairwise_matchesIn h)).imp precedes_iff.mpr

/-! ## Suggestions -/

section Suggestions

variable (options : QueryOptions) (path : Option Path) (typed : List Char)

/-- The matches of a query in the order of suggestions. -/
def rankedMatches (index : Index) : List Match :=
  let cx := contextOf index options path
  ranked (path.bind Path.stem?) (matchesIn index cx.current (detectScope cx typed))

/-- The candidates among which names are compared. -/
def compared (index : Index) : Candidates :=
  if options.globalAmbiguity then .all else (detectScope (contextOf index options path) typed).candidates

/-- The suggestion of a match of a query. -/
def suggestionOf (index : Index) (m : Match) : Suggestion :=
  let cx := contextOf index options path
  let known := owners index cx.current (compared options path typed index) m.keyword.name
  keywordSuggestion options typed (detectScope cx typed) (1 < known.length) m

variable {options path typed}

/-- The current file of a query is indexed. -/
theorem current_mem (index : Index) (options : QueryOptions) (path : Option Path) {f : SourceFile}
    (hf : (contextOf index options path).current = some f) : f ∈ index.files := by
  obtain ⟨place, -, hfile⟩ := Option.bind_eq_some_iff.mp hf
  exact (Index.mem_of_file? hfile).1

theorem mem_rankedMatches_iff (h : index.Consistent) :
    m ∈ rankedMatches options path typed index ↔
      Eligible index (contextOf index options path).current
        (detectScope (contextOf index options path) typed) m :=
  (List.mergeSort_perm _ _).mem_iff.trans (mem_matchesIn_iff h fun _ => current_mem index options path)

theorem keywordSuggestions_of_invalid
    (hkind : (detectScope (contextOf index options path) typed).kind = .invalid) :
    keywordSuggestions index options path typed = [] := if_pos hkind

theorem keywordSuggestions_of_valid
    (hkind : (detectScope (contextOf index options path) typed).kind ≠ .invalid) :
    keywordSuggestions index options path typed =
      ((rankedMatches options path typed index).take options.maxSuggestions).map
        (suggestionOf options path typed index) := if_neg hkind

/-- A suggestion is that of an eligible keyword. -/
theorem exists_of_mem_keywordSuggestions (h : index.Consistent) {s : Suggestion}
    (hs : s ∈ keywordSuggestions index options path typed) :
    ∃ m, Eligible index (contextOf index options path).current
      (detectScope (contextOf index options path) typed) m ∧
      s = suggestionOf options path typed index m := by
  by_cases hkind : (detectScope (contextOf index options path) typed).kind = .invalid
  · rw [keywordSuggestions_of_invalid hkind] at hs
    cases hs
  · rw [keywordSuggestions_of_valid hkind] at hs
    obtain ⟨m, hm, rfl⟩ := List.mem_map.mp hs
    exact ⟨m, (mem_rankedMatches_iff h).mp (List.mem_of_mem_take hm), rfl⟩

/-- An eligible keyword is matched once. -/
theorem nodup_rankedMatches (h : index.Consistent) :
    ((rankedMatches options path typed index).map (·.keyword.id)).Nodup := by
  have hsorted : (rankedMatches options path typed index).Pairwise
      (Precedes (path.bind Path.stem?)) := pairwise_ranked h
  refine List.Nodup.map_on (fun a ha b hb hid => ?_) (hsorted.imp fun {a b} hlt => ?_)
  · have ha := (mem_rankedMatches_iff h).mp ha
    have hb := (mem_rankedMatches_iff h).mp hb
    obtain ⟨hfile, hkeyword⟩ := h.eq_of_id_eq ha.file_mem hb.file_mem
      (List.mem_of_getElem? ha.placed) (List.mem_of_getElem? hb.placed) hid
    exact ha.eq_of_keyword hb hfile hkeyword
  · rintro rfl
    exact lt_irrefl _ hlt

/-- A query suggests the first of the eligible keywords, each of which has one place in the order, up to
its limit, and nothing if what is typed cannot stand in a cell. So it never suggests a local keyword of
another file, and with a lower limit it suggests the same keywords up to that limit. -/
theorem suggests_first_eligible (h : index.Consistent) (options : QueryOptions) (path : Option Path)
    (typed : List Char) :
    let current := path.bind index.fileByPath?
    let scope := detectScope (contextOf index options path) typed
    (scope.kind = .invalid → keywordSuggestions index options path typed = []) ∧
    (scope.kind ≠ .invalid → ∃ all : List Match,
      (∀ m, m ∈ all ↔ Eligible index current scope m) ∧
      (all.map (·.keyword.id)).Nodup ∧
      all.Pairwise (Precedes (path.bind Path.stem?)) ∧
      (keywordSuggestions index options path typed).map (·.keyword) =
        (all.take options.maxSuggestions).map (some ·.keyword.id)) ∧
    (∀ s ∈ keywordSuggestions index options path typed, ∀ f ∈ index.files, ∀ k ∈ f.keywords,
      s.keyword = some k.id → k.isLocal = true → current = some f) ∧
    ∀ cap ≤ options.maxSuggestions,
      keywordSuggestions index { options with maxSuggestions := cap } path typed <+:
        keywordSuggestions index options path typed := by
  intro current scope
  refine ⟨keywordSuggestions_of_invalid, fun hkind => ?_, fun s hs f hf k hk hid hlocal => ?_,
    fun cap hcap => ?_⟩
  · refine ⟨rankedMatches options path typed index, fun m => mem_rankedMatches_iff h,
      nodup_rankedMatches h, pairwise_ranked h, ?_⟩
    rw [keywordSuggestions_of_valid hkind, List.map_map]
    rfl
  · obtain ⟨m, hm, rfl⟩ := exists_of_mem_keywordSuggestions h hs
    obtain ⟨rfl, rfl⟩ := h.eq_of_id_eq hm.file_mem hf (List.mem_of_getElem? hm.placed) hk
      (Option.some.inj hid)
    exact hm.visible hlocal
  · let limited : QueryOptions := { options with maxSuggestions := cap }
    by_cases hkind : scope.kind = .invalid
    · have hnone : keywordSuggestions index limited path typed = [] := keywordSuggestions_of_invalid hkind
      exact hnone ▸ List.nil_prefix
    · have hsome : keywordSuggestions index limited path typed =
          ((rankedMatches limited path typed index).take cap).map (suggestionOf limited path typed index) :=
        keywordSuggestions_of_valid hkind
      -- the limit has no part in the ranking
      rw [keywordSuggestions_of_valid hkind]
      exact hsome ▸ (List.take_prefix_take_left hcap).map _

end Suggestions

/-- A test suite whose keywords are local, and two resources; all share names. -/
def shared : List Index.Change :=
  let keyword (name : String) : Declaration := ⟨name, "", [], none⟩
  [.addTable { keywords := [keyword "Foo", keyword "Setup"], testCases := [keyword "T"] }
      ⟨"/p/suite.robot"⟩,
    .addTable { keywords := [keyword "foo", keyword "Bar"] } ⟨"/p/b.robot"⟩,
    .addTable { keywords := [keyword "Bar"] } ⟨"/p/a.robot"⟩]

/-- Of the two keywords of the name the local one is not suggested. -/
theorem suggests_first_eligible_shared :
    (Index.after shared).Consistent ∧
    (detectScope (contextOf (Index.after shared) {} none) ['.', 'f', 'o']).kind ≠ .invalid ∧
    (keywordSuggestions (Index.after shared) {} none ['.', 'f', 'o']).map (·.keyword) =
      [some ⟨⟨"/p/b.robot"⟩, 0⟩] ∧
    ∃ all : List Match, (all.map (·.keyword.id)).Nodup ∧ all.Pairwise (Precedes none) ∧
      (all.take 100).map (some ·.keyword.id) = [some ⟨⟨"/p/b.robot"⟩, 0⟩] := by
  have hconsistent := Index.consistent_after shared
  have hkind : (detectScope (contextOf (Index.after shared) {} none) ['.', 'f', 'o']).kind ≠
    .invalid := by decide +kernel
  have hsuggested : (keywordSuggestions (Index.after shared) {} none ['.', 'f', 'o']).map
    (·.keyword) = [some ⟨⟨"/p/b.robot"⟩, 0⟩] := by decide +kernel
  obtain ⟨all, -, hnodup, hsorted, hall⟩ :=
    (suggests_first_eligible hconsistent {} none ['.', 'f', 'o']).2.1 hkind
  exact ⟨hconsistent, hkind, hsuggested, all, hnodup, hsorted, hall ▸ hsuggested⟩

end Query

end KeywordIndex
