import KeywordIndex.Proofs.Query.Ambiguity
import KeywordIndex.Proofs.Query.Scope
import Mathlib.Data.List.Sort

namespace KeywordIndex.Query

open Text

/-! # Suggestions do not tell how an index was built

Records stand in the order in which their keys came, and the buckets of the name table in the order in
which keywords came. A query sees neither: which keywords are eligible and which names are ambiguous is
told by the set of records, and eligible keywords can be ranked in one way only. So two indexes with the
same records answer every query alike (`suggestions_of_same_records`).
-/

instance (currentName : Option String) : Std.Asymm (Precedes currentName) where
  asymm _ _ := lt_asymm

variable {a b : Index} {current : Option SourceFile} {m : Match}

/-! ## What the records tell -/

section Records

variable (hsame : ∀ f, f ∈ a.files ↔ f ∈ b.files)
include hsame

theorem eligible_congr {s t : Scope} (hagrees : s.Agrees t) :
    Eligible a current s m ↔ Eligible b current t m := by
  have hcontains := hagrees.contains m.file.key
  constructor
  · rintro ⟨hf, hsearched, hplaced, hvisible, hscored⟩
    exact ⟨(hsame _).mp hf, hcontains ▸ hsearched, hplaced, hvisible, hagrees.query ▸ hscored⟩
  · rintro ⟨hf, hsearched, hplaced, hvisible, hscored⟩
    exact ⟨(hsame _).mpr hf, hcontains ▸ hsearched, hplaced, hvisible, hagrees.query ▸ hscored⟩

theorem defines_congr {candidates others : Candidates}
    (hcontains : ∀ key, candidates.contains key = others.contains key) {name : String}
    {f : SourceFile} : Defines a current candidates name f ↔ Defines b current others name f := by
  constructor
  · rintro ⟨hf, hcompared, hnamed⟩
    exact ⟨(hsame f).mp hf, hcontains f.key ▸ hcompared, hnamed⟩
  · rintro ⟨hf, hcompared, hnamed⟩
    exact ⟨(hsame f).mpr hf, hcontains f.key ▸ hcompared, hnamed⟩

end Records

/-! ## Queries -/

section Queries

variable (ha : a.Consistent) (hb : b.Consistent) (hsame : ∀ f, f ∈ a.files ↔ f ∈ b.files)
  (options : QueryOptions) (path : Option Path) (typed : List Char)
include ha hb hsame

theorem contextOf_congr : contextOf b options path = { contextOf a options path with index := b } := by
  have hfile : b.fileByPath? = a.fileByPath? := by
    funext place
    exact (@file?_congr (contextOf a options path) b hsame ha hb place.normalize.key).symm
  rw [contextOf, hfile, contextOf]

theorem current_congr : (contextOf b options path).current = (contextOf a options path).current := by
  rw [contextOf_congr ha hb hsame options path]

theorem scopes_agree : (detectScope (contextOf a options path) typed).Agrees
    (detectScope (contextOf b options path) typed) := by
  rw [contextOf_congr ha hb hsame options path]
  exact detectScope_agrees hsame ha hb typed

/-- There is one way to rank the same matches. -/
theorem rankedMatches_congr :
    rankedMatches options path typed a = rankedMatches options path typed b := by
  have hfirst : (rankedMatches options path typed a).Pairwise (Precedes (path.bind Path.stem?)) :=
    pairwise_ranked ha
  have hsecond : (rankedMatches options path typed b).Pairwise (Precedes (path.bind Path.stem?)) :=
    pairwise_ranked hb
  -- both are strictly sorted, so only their members have to be compared
  refine hfirst.eq_of_mem_iff hsecond fun m => ?_
  rw [mem_rankedMatches_iff ha, mem_rankedMatches_iff hb, current_congr ha hb hsame options path]
  exact eligible_congr hsame (scopes_agree ha hb hsame options path typed)

theorem compared_congr (key : Key) :
    (compared options path typed a).contains key = (compared options path typed b).contains key := by
  unfold compared
  split
  · rfl
  · exact (scopes_agree ha hb hsame options path typed).contains key

theorem suggestionOf_congr (m : Match) :
    suggestionOf options path typed a m = suggestionOf options path typed b m := by
  have hagrees := scopes_agree ha hb hsame options path typed
  have hcurrent := current_congr ha hb hsame options path
  have howners :
      1 < (owners a (contextOf a options path).current (compared options path typed a)
        m.keyword.name).length ↔
      1 < (owners b (contextOf b options path).current (compared options path typed b)
        m.keyword.name).length := by
    rw [one_lt_length_owners ha fun _ => current_mem a options path,
      one_lt_length_owners hb fun _ => current_mem b options path, hcurrent]
    simp only [Ambiguous, defines_congr hsame (compared_congr ha hb hsame options path typed)]
  unfold suggestionOf keywordSuggestion
  simp only [howners, hagrees.kind, hagrees.queryStart]

end Queries

/-- Two indexes with the same records, whatever changes built them, answer every query alike: the order of
the records and of what is listed under a name leaves no trace. -/
theorem suggestions_of_same_records (ha : a.Consistent) (hb : b.Consistent)
    (hsame : ∀ f, f ∈ a.files ↔ f ∈ b.files) (options : QueryOptions) (path : Option Path)
    (typed : List Char) : keywordSuggestions a options path typed =
      keywordSuggestions b options path typed := by
  have hkind := (scopes_agree ha hb hsame options path typed).kind
  by_cases hinvalid : (detectScope (contextOf a options path) typed).kind = .invalid
  · rw [keywordSuggestions_of_invalid hinvalid, keywordSuggestions_of_invalid (hkind ▸ hinvalid)]
  · rw [keywordSuggestions_of_valid hinvalid, keywordSuggestions_of_valid (hkind ▸ hinvalid),
      rankedMatches_congr ha hb hsame options path typed]
    exact List.map_congr_left fun m _ => suggestionOf_congr ha hb hsame options path typed m

/-- The records of `shared` in another order, after changes that were undone. -/
def sharedAnew : List Index.Change :=
  let keyword (name : String) : Declaration := ⟨name, "", [], none⟩
  [.addTable { keywords := [keyword "Bar"] } ⟨"/p/a.robot"⟩,
    .addTable { keywords := [keyword "Bar", keyword "Gone"] } ⟨"/p/b.robot"⟩,
    .addLibrary { keywords := [keyword "Bar"] } "Gone" none none,
    .addTable { keywords := [keyword "Foo", keyword "Setup"], testCases := [keyword "T"] }
      ⟨"/p/suite.robot"⟩,
    .addTable { keywords := [keyword "foo", keyword "Bar"] } ⟨"/p/b.robot"⟩,
    .remove (Key.ofText "Gone")]

/-- Two keywords match, and the indexes list them in different orders. -/
theorem suggestions_of_same_records_shared :
    (Index.after shared).files ≠ (Index.after sharedAnew).files ∧
    (Index.after shared).names.ids "bar" ≠ (Index.after sharedAnew).names.ids "bar" ∧
    (∀ f, f ∈ (Index.after shared).files ↔ f ∈ (Index.after sharedAnew).files) ∧
    keywordSuggestions (Index.after shared) {} none ['.', 'b', 'a'] =
      keywordSuggestions (Index.after sharedAnew) {} none ['.', 'b', 'a'] := by
  have hthere : ∀ f ∈ (Index.after shared).files, f ∈ (Index.after sharedAnew).files := by
    decide +kernel
  have hback : ∀ f ∈ (Index.after sharedAnew).files, f ∈ (Index.after shared).files := by
    decide +kernel
  have hsame := fun f => Iff.intro (hthere f) (hback f)
  exact ⟨by decide +kernel, by decide +kernel, hsame, suggestions_of_same_records
    (Index.consistent_after _) (Index.consistent_after _) hsame {} none ['.', 'b', 'a']⟩

end KeywordIndex.Query
