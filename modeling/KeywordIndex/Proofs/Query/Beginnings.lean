import KeywordIndex.Proofs.Query.Acceptance
import KeywordIndex.Proofs.Text.Sigma

namespace KeywordIndex.Query

open Text

/-! # Typing the start of a name

Whoever types the start of a name means the name. The start of a name without dots is searched for in the
default scope, and as long as it is found in the name in lowercase the keyword is suggested. What is typed
and the name are brought to lowercase apart, so the form of a sigma may differ where a word is broken off
behind it; nowhere else can the start of a name miss the name (`found_by_start_iff`).
-/

/-! ## The scope of the start of a name -/

/-- What has no dot and no separator is searched for in the default scope. -/
theorem detectScope_default (cx : ScopeContext) {typed : List Char} (hdot : '.' ∉ typed)
    (hcell : hasSeparator typed = false) :
    (detectScope cx typed).kind = .default ∧ (detectScope cx typed).query = trim typed ∧
      (detectScope cx typed).candidates = .only (defaultKeys cx) := by
  have hpart : trim typed <:+: typed := trim_isInfix typed
  have hnone : '.' ∉ trim typed := fun hmem => hdot (hpart.subset hmem)
  have htrimmed : hasSeparator (trim typed) = false := by
    obtain ⟨htab, hspaces⟩ := hasSeparator_eq_false_iff.mp hcell
    exact hasSeparator_eq_false_iff.mpr
      ⟨fun hmem => htab (hpart.subset hmem), fun hpair => hspaces (hpair.trans hpart)⟩
  simp [detectScope, htrimmed, hnone]

/-! ## Finding the name -/

section Start

variable {index : Index} {f : SourceFile} {k : Keyword} {typed rest : List Char} {cap : Nat}

/-- The start of the name of a visible keyword in the default scope finds the keyword, unless the name is
broken off within a word behind a capital sigma. Then the lowercase form of what was typed ends that word
with a final sigma, and the keyword is found exactly if one comes later in the name, and what was typed
behind the sigma after it. -/
theorem found_by_start_iff (h : index.Consistent) (options : QueryOptions) (path : Option Path)
    (hf : f ∈ index.files) (hscope : f.key ∈ defaultKeys (contextOf index options path))
    (hk : k ∈ f.keywords) (hvisible : k.isLocal = true → path.bind index.fileByPath? = some f)
    (hname : k.name.toList = typed ++ rest) (hdot : '.' ∉ k.name.toList) (htab : '\t' ∉ k.name.toList)
    (hspaces : ¬ [' ', ' '] <:+: k.name.toList) (hcap : index.keywords.length ≤ cap) :
    (∃ s ∈ keywordSuggestions index { options with maxSuggestions := cap } path typed,
      s.keyword = some k.id) ↔
    ∀ lead tail, typed = lead ++ 'Σ' :: tail → BreaksWord lead.reverse tail rest →
      ('ς' :: lower tail).Sublist (lowerFrom ('Σ' :: lead.reverse) (tail ++ rest)) := by
  have hstart : typed <:+: k.name.toList := hname ▸ (List.prefix_append typed rest).isInfix
  have hcell : hasSeparator typed = false := hasSeparator_eq_false_iff.mpr
    ⟨fun hmem => htab (hstart.subset hmem), fun hpair => hspaces (hpair.trans hstart)⟩
  obtain ⟨hkind, hquery, hcandidates⟩ := detectScope_default (contextOf index options path)
    (fun hmem => hdot (hstart.subset hmem)) hcell
  rw [exists_suggestion_iff h hcap hf hk hvisible (by rw [hkind]; decide), hcandidates, hquery]
  have hsearched : (Candidates.only (defaultKeys (contextOf index options path))).contains f.key = true := by
    simpa [Candidates.contains] using hscope
  rw [Matches, trim_trim, hname, ← lower_trim_sublist_iff]
  exact and_iff_right hsearched

end Start

/-- Two keywords whose names go on behind a sigma; one of them ends with a final sigma. -/
def brokenOff : List Index.Change :=
  let keyword (name : String) : Declaration := ⟨name, "", [], none⟩
  [.addTable { keywords := [keyword "ΑΣΒΣ", keyword "ΑΣΒ"] } ⟨"/p/a.robot"⟩]

/-- The word is broken off, and the final sigma is found later. -/
theorem found_by_start_brokenOff :
    BreaksWord "Α".toList.reverse [] "ΒΣ".toList ∧
    ∃ s ∈ keywordSuggestions (Index.after brokenOff) { maxSuggestions := 2 ^ 64 - 1 } (some ⟨"/p/a.robot"⟩)
      "ΑΣ".toList, s.keyword = some ⟨⟨"/p/a.robot"⟩, 0⟩ := by
  have hcut : ∀ lead tail, "ΑΣ".toList = lead ++ 'Σ' :: tail → lead = ['Α'] ∧ tail = [] := by
    rintro (_ | ⟨c, _ | ⟨d, lead⟩⟩) tail h <;> simp_all [eq_comm]
  let file : Option Path := some ⟨"/p/a.robot"⟩
  let keyword : Keyword := ⟨⟨⟨"/p/a.robot"⟩, 0⟩, "ΑΣΒΣ", "", [], none, false⟩
  have hfile : ∃ f ∈ (Index.after brokenOff).files,
      f.key ∈ defaultKeys (contextOf (Index.after brokenOff) {} file) ∧ keyword ∈ f.keywords := by
    decide +kernel
  obtain ⟨f, hf, hscope, hk⟩ := hfile
  have hname : keyword.name.toList = "ΑΣ".toList ++ "ΒΣ".toList := by decide
  have hcount : (Index.after brokenOff).keywords.length ≤ 2 ^ 64 - 1 := by decide +kernel
  refine ⟨⟨List.forall_mem_nil _, by decide +kernel, by decide +kernel⟩, ?_⟩
  refine (found_by_start_iff (Index.consistent_after brokenOff) {} file hf hscope hk
    (fun hlocal => Bool.noConfusion hlocal) hname (by decide) (by decide) (by decide) hcount).mpr
    fun lead tail htyped _ => ?_
  obtain ⟨rfl, rfl⟩ := hcut lead tail htyped
  decide +kernel

/-- Of the other name the typed start is not found: it is spelled with a final sigma, the name is not. -/
theorem start_of_name_missed :
    let index := Index.after brokenOff
    let file : Option Path := some ⟨"/p/a.robot"⟩
    ∃ f ∈ index.files, f.key ∈ defaultKeys (contextOf index {} file) ∧ ∃ k ∈ f.keywords,
      k.isLocal = false ∧ "ΑΣ".toList <+: k.name.toList ∧ '.' ∉ k.name.toList ∧ '\t' ∉ k.name.toList ∧
      ¬ [' ', ' '] <:+: k.name.toList ∧ index.keywords.length ≤ 2 ^ 64 - 1 ∧
      ¬ ∃ s ∈ keywordSuggestions index { maxSuggestions := 2 ^ 64 - 1 } file "ΑΣ".toList,
        s.keyword = some k.id := by
  decide +kernel

end KeywordIndex.Query
