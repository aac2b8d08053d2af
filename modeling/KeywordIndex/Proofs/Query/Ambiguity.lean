import KeywordIndex.Proofs.Index.Views
import KeywordIndex.Proofs.Query.Ranking
import Mathlib.Data.Finset.Card

namespace KeywordIndex.Query

open Text

/-! # Which suggestions are qualified

A keyword is inserted with the display name of its record if its name is `Ambiguous`: two records among
those compared define it for the current file. The owners of a name are looked up in the name table, and
what is suggested comes from the records, so the verdict rests on the agreement of the two views
(`mem_owners_iff`). What the limit cuts off has no part in it (`qualified_iff_ambiguous`).
-/

/-- A record among the candidates with a keyword that has the name, in any case, and that the current file
sees. -/
structure Defines (index : Index) (current : Option SourceFile) (candidates : Candidates)
    (name : String) (f : SourceFile) : Prop where
  file_mem : f ∈ index.files
  compared : candidates.contains f.key = true
  named : ∃ k ∈ f.keywords, k.lookupName = lookupName name ∧ (k.isLocal = true → current = some f)

/-- Several records define the name. -/
def Ambiguous (index : Index) (current : Option SourceFile) (candidates : Candidates)
    (name : String) : Prop :=
  ∃ f g, Defines index current candidates name f ∧ Defines index current candidates name g ∧ f ≠ g

/-! ## Owners -/

section Owners

variable {index : Index} (h : index.Consistent) {current : Option SourceFile}
  (hcurrent : ∀ f, current = some f → f ∈ index.files) {candidates : Candidates} {name : String}
include h hcurrent

/-- The owners of a name are the keys of the records that define it. -/
theorem mem_owners_iff {key : Key} : key ∈ owners index current candidates name ↔
    ∃ f, Defines index current candidates name f ∧ f.key = key := by
  simp only [owners, mem_distinct, List.mem_map, List.mem_filter, (h.keywordsNamed_perm name).mem_iff,
    Index.keywords, List.mem_flatMap, decide_eq_true_eq, Bool.and_eq_true]
  -- the table gives keywords; their ids tell the record only because records are numbered
  constructor
  · rintro ⟨k, ⟨⟨⟨f, hf, hk⟩, hname⟩, hvisible, hcompared⟩, rfl⟩
    rw [(h.numbered f hf).file_eq hk] at hcompared ⊢
    exact ⟨f, ⟨hf, hcompared, k, hk, hname, (isVisible_iff h hcurrent hf hk).mp hvisible⟩, rfl⟩
  · rintro ⟨f, ⟨hf, hcompared, k, hk, hname, hvisible⟩, rfl⟩
    rw [← (h.numbered f hf).file_eq hk] at hcompared ⊢
    exact ⟨k, ⟨⟨⟨f, hf, hk⟩, hname⟩, (isVisible_iff h hcurrent hf hk).mpr hvisible, hcompared⟩, rfl⟩

theorem one_lt_length_owners :
    1 < (owners index current candidates name).length ↔ Ambiguous index current candidates name := by
  have hnodup : (owners index current candidates name).Nodup := nodup_distinct _
  -- owners are listed once each, so two of them are two records
  rw [← List.toFinset_card_of_nodup hnodup, Finset.one_lt_card_iff]
  simp only [List.mem_toFinset, mem_owners_iff h hcurrent]
  constructor
  · rintro ⟨-, -, ⟨f, hf, rfl⟩, ⟨g, hg, rfl⟩, hne⟩
    exact ⟨f, g, hf, hg, fun e => hne (e ▸ rfl)⟩
  · rintro ⟨f, g, hf, hg, hne⟩
    exact ⟨f.key, g.key, ⟨f, hf, rfl⟩, ⟨g, hg, rfl⟩,
      fun e => hne (h.eq_of_key_eq hf.file_mem hg.file_mem e)⟩

end Owners

/-! ## Inserted names -/

/-- Placeholders follow the name, so the inserted text tells the name. -/
theorem insertionText_inj {options : QueryOptions} {k : Keyword} {a b : String} :
    insertionText options a k = insertionText options b k ↔ a = b := by
  unfold insertionText
  split
  · exact String.append_left_inj _
  · rfl

section Inserted

variable {options : QueryOptions} {typed : List Char} {scope : Scope} {isAmbiguous : Bool} {m : Match}

/-- The qualified name is inserted, in place of all that was typed, exactly if the name is ambiguous. -/
theorem keywordSuggestion_qualified_iff :
    (keywordSuggestion options typed scope isAmbiguous m).insertionText =
        insertionText options (m.file.displayName ++ "." ++ m.keyword.name) m.keyword ∧
      (keywordSuggestion options typed scope isAmbiguous m).replacement = ⟨0, byteLength typed⟩ ↔
    isAmbiguous = true := by
  have hne : m.keyword.name ≠ m.file.displayName ++ "." ++ m.keyword.name := Ne.symm (by simp)
  cases isAmbiguous
  · simp [keywordSuggestion, insertionText_inj, hne]
  · simp [keywordSuggestion]

/-- The bare name is inserted exactly if it is not ambiguous. -/
theorem keywordSuggestion_bare_iff :
    (keywordSuggestion options typed scope isAmbiguous m).insertionText =
      insertionText options m.keyword.name m.keyword ↔ isAmbiguous = false := by
  cases isAmbiguous
  · simp [keywordSuggestion]
  · simp [keywordSuggestion, insertionText_inj]

end Inserted

/-- A suggestion inserts the qualified name of its keyword, in place of all that was typed, exactly if two
records among those compared define the name for the current file: the searched ones, or all. Otherwise it
inserts the bare name. -/
theorem qualified_iff_ambiguous {index : Index} (h : index.Consistent) (options : QueryOptions)
    (path : Option Path) (typed : List Char) :
    let current := path.bind index.fileByPath?
    let searched := (detectScope (contextOf index options path) typed).candidates
    let candidates := if options.globalAmbiguity then Candidates.all else searched
    ∀ s ∈ keywordSuggestions index options path typed,
      (∃ f ∈ index.files, ∃ k ∈ f.keywords, s.keyword = some k.id) ∧
      ∀ f ∈ index.files, ∀ k ∈ f.keywords, s.keyword = some k.id →
        (s.insertionText = insertionText options (f.displayName ++ "." ++ k.name) k ∧
            s.replacement = ⟨0, byteLength typed⟩ ↔
          Ambiguous index current candidates k.name) ∧
        (s.insertionText = insertionText options k.name k ↔
          ¬ Ambiguous index current candidates k.name) := by
  intro current searched candidates s hs
  obtain ⟨m, hm, rfl⟩ := exists_of_mem_keywordSuggestions h hs
  have hplaced := List.mem_of_getElem? hm.placed
  refine ⟨⟨m.file, hm.file_mem, m.keyword, hplaced, rfl⟩, fun f hf k hk hid => ?_⟩
  obtain ⟨rfl, rfl⟩ := h.eq_of_id_eq hm.file_mem hf hplaced hk (Option.some.inj hid)
  have hverdict : 1 < (owners index current candidates m.keyword.name).length ↔
      Ambiguous index current candidates m.keyword.name :=
    one_lt_length_owners h fun _ => current_mem index options path
  constructor
  · exact keywordSuggestion_qualified_iff.trans (decide_eq_true_iff.trans hverdict)
  · exact keywordSuggestion_bare_iff.trans (decide_eq_false_iff_not.trans (not_congr hverdict))

/-- Two resources define the name, so it is rendered with the name of its record. If only the record that the
qualifier `b` leaves is compared, it is rendered bare. -/
theorem qualified_iff_ambiguous_shared :
    let index := Index.after shared
    let typed := ['b', '.', 'b', 'a', 'r']
    let everywhere : QueryOptions := { globalAmbiguity := true }
    let keyword : Keyword := ⟨⟨⟨"/p/b.robot"⟩, 1⟩, "Bar", "", [], none, false⟩
    index.Consistent ∧
      (∃ s ∈ keywordSuggestions index everywhere none typed, s.keyword = some keyword.id ∧
        s.insertionText = insertionText everywhere ("b" ++ "." ++ "Bar") keyword ∧
        s.replacement = ⟨0, byteLength typed⟩) ∧
      Ambiguous index none .all "Bar" ∧
      (∃ s ∈ keywordSuggestions index {} none typed, s.keyword = some keyword.id ∧
        s.insertionText = insertionText {} "Bar" keyword) ∧
      ¬ Ambiguous index none (.only [⟨"/p/b.robot"⟩]) "Bar" := by
  intro index typed everywhere keyword
  have hconsistent : index.Consistent := Index.consistent_after shared
  have hfile : ∃ f ∈ index.files, f.displayName = "b" ∧ keyword ∈ f.keywords := by
    decide +kernel
  obtain ⟨f, hf, hname, hk⟩ := hfile
  have hqualified : ∃ s ∈ keywordSuggestions index everywhere none typed, s.keyword = some keyword.id ∧
      s.insertionText = insertionText everywhere ("b" ++ "." ++ "Bar") keyword ∧
      s.replacement = ⟨0, byteLength typed⟩ := by
    decide +kernel
  have hbare : ∃ s ∈ keywordSuggestions index {} none typed, s.keyword = some keyword.id ∧
      s.insertionText = insertionText {} "Bar" keyword := by
    decide +kernel
  have hsearched : (detectScope (contextOf index {} none) typed).candidates =
      .only [⟨"/p/b.robot"⟩] := by decide +kernel
  refine ⟨hconsistent, hqualified, ?_, hbare, ?_⟩
  · obtain ⟨s, hs, hid, hinserted⟩ := hqualified
    rw [← hname] at hinserted
    exact (((qualified_iff_ambiguous hconsistent everywhere none typed s hs).2 f hf keyword hk hid).1).mp
      hinserted
  · obtain ⟨s, hs, hid, hinserted⟩ := hbare
    rw [← hsearched]
    exact (((qualified_iff_ambiguous hconsistent {} none typed s hs).2 f hf keyword hk hid).2).mp
      hinserted

end KeywordIndex.Query
