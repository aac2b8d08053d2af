import KeywordIndex.Proofs.Query.Matching
import KeywordIndex.Proofs.Query.Ranking
import KeywordIndex.Proofs.Query.Scope
import Mathlib.Data.List.Perm.Subperm

namespace KeywordIndex.Query

open Text

/-! # Queries for a suggested name

A qualified name that was inserted can be queried again. The rules of scopes read it without knowing how it
came about: a leading dot and the internal modifier come before the names of records, and a longer name
comes before a shorter one. What a qualified text `Selects` states these rules once; the keyword is found
again if the display name of its record is what the rules find first (`accepted_iff`).
-/

/-! ## Texts in a cell -/

/-- The text can stand in one cell and is what a reader of the cell sees: nothing in it separates cells,
and no blank stands at its ends. -/
structure InCell (cs : List Char) : Prop where
  unseparated : hasSeparator cs = false
  trimmed : trim cs = cs

instance (cs : List Char) : Decidable (InCell cs) :=
  decidable_of_iff (hasSeparator cs = false ∧ trim cs = cs)
    ⟨fun ⟨unseparated, trimmed⟩ => ⟨unseparated, trimmed⟩, fun h => ⟨h.unseparated, h.trimmed⟩⟩

theorem hasSeparator_eq_false_iff {cs : List Char} :
    hasSeparator cs = false ↔ '\t' ∉ cs ∧ ¬ [' ', ' '] <:+: cs := by
  rw [hasSeparator, Bool.or_eq_false_iff, ← occurs_iff]
  simp

/-- A qualified name stands in a cell if both of its parts do. -/
theorem InCell.qualified {qualifier name : List Char} (hqualifier : InCell qualifier) (hname : InCell name) :
    InCell (qualifier ++ '.' :: name) where
  unseparated := by
    obtain ⟨htab, hspaces⟩ := hasSeparator_eq_false_iff.mp hqualifier.unseparated
    obtain ⟨htab', hspaces'⟩ := hasSeparator_eq_false_iff.mp hname.unseparated
    refine hasSeparator_eq_false_iff.mpr ⟨by simp [htab, htab'], ?_⟩
    rw [infix_append_cons_iff (by decide)]
    exact not_or.mpr ⟨hspaces, hspaces'⟩
  trimmed := by
    have hdot : isBlank '.' = false := by decide
    obtain ⟨hfirst, -⟩ := trim_eq_self_iff.mp hqualifier.trimmed
    obtain ⟨-, hlast⟩ := trim_eq_self_iff.mp hname.trimmed
    refine trim_eq_self_iff.mpr ⟨fun c hc => ?_, fun c hc => ?_⟩
    · cases qualifier with
      | nil => exact Option.some.inj hc ▸ hdot
      | cons d rest => exact hfirst c hc
    · rw [List.getLast?_append_of_ne_nil _ (List.cons_ne_nil '.' name)] at hc
      cases name with
      | nil => exact Option.some.inj hc ▸ hdot
      | cons d rest => exact hlast c (by rwa [List.getLast?_cons_cons] at hc)

/-! ## What a qualified text selects -/

/-- The reading has the longest qualifier. -/
def Longest (cx : ScopeContext) (text : List Char) (cut : Qualified) : Prop :=
  ∀ other key, Reads cx text other key → byteLength other.typed ≤ byteLength cut.typed

/-- The text selects the record with the key, in which it asks for the query. The rules are tried in their
order. -/
inductive Selects (cx : ScopeContext) (text : List Char) (key : Key) : List Char → Prop where
  | everywhere (query : List Char) (h : text = '.' :: query) : Selects cx text key query
  | internal (cut : Qualified) (f : SourceFile) (hlead : text.head? ≠ some '.')
      (hcut : cutQualifier? cx.internalModifier text = some cut) (hcurrent : cx.current = some f)
      (hkey : f.key = key) : Selects cx text key cut.rest
  | named (cut : Qualified) (hlead : text.head? ≠ some '.')
      (hcut : cutQualifier? cx.internalModifier text = none) (hreads : Reads cx text cut key)
      (hlongest : Longest cx text cut) : Selects cx text key cut.rest

section Selecting

variable {cx : ScopeContext} {text query : List Char} {key : Key}

theorem detectScope_everywhere (cx : ScopeContext) (h : InCell ('.' :: query)) :
    (detectScope cx ('.' :: query)).kind = .global ∧ (detectScope cx ('.' :: query)).query = query ∧
      (detectScope cx ('.' :: query)).candidates = .all := by
  simp [detectScope, h.trimmed, h.unseparated]

theorem detectScope_internal {cut : Qualified} (h : InCell text) (hdot : '.' ∈ text)
    (hlead : text.head? ≠ some '.') (hcut : cutQualifier? cx.internalModifier text = some cut) :
    (detectScope cx text).kind = .internal ∧ (detectScope cx text).query = cut.rest ∧
      (detectScope cx text).candidates = .only (cx.current.toList.map (·.key)) := by
  cases text with
  | nil => cases hdot
  | cons c text =>
    have hc : c ≠ '.' := fun heq => hlead (heq ▸ rfl)
    simp [detectScope, h.trimmed, h.unseparated, hdot, hc, hcut]

theorem detectScope_named {q : QualifiedFiles} (h : InCell text) (hdot : '.' ∈ text)
    (hlead : text.head? ≠ some '.') (hcut : cutQualifier? cx.internalModifier text = none)
    (hq : fileQualifier? cx text = some q) :
    (detectScope cx text).kind = .fileQualified ∧ (detectScope cx text).query = q.text.rest ∧
      (detectScope cx text).candidates = .only q.keys := by
  cases text with
  | nil => cases hdot
  | cons c text =>
    have hc : c ≠ '.' := fun heq => hlead (heq ▸ rfl)
    simp [detectScope, h.trimmed, h.unseparated, hdot, hc, hcut, hq]

/-- The scope of a qualified text that some rule reads. -/
theorem detectScope_selects (h : InCell text) (hdot : '.' ∈ text)
    (hread : text.head? ≠ some '.' → ∃ cut key, Reads cx text cut key) :
    (detectScope cx text).kind ≠ .invalid ∧
      ((detectScope cx text).candidates.contains key = true ∧ (detectScope cx text).query = query ↔
        Selects cx text key query) := by
  by_cases hlead : text.head? = some '.'
  · obtain ⟨rest, rfl⟩ := List.head?_eq_some_iff.mp hlead
    obtain ⟨hkind, hquery, hcandidates⟩ := detectScope_everywhere cx h
    rw [hkind, hquery, hcandidates]
    refine ⟨by decide, ?_, ?_⟩
    · rintro ⟨-, rfl⟩
      exact .everywhere rest rfl
    · rintro (⟨_, h⟩ | ⟨_, _, hother⟩ | ⟨_, hother⟩)
      · exact ⟨rfl, (List.cons.inj h).2⟩
      · exact absurd hlead hother
      · exact absurd hlead hother
  · cases hcut : cutQualifier? cx.internalModifier text with
    | some cut =>
      obtain ⟨hkind, hquery, hcandidates⟩ := detectScope_internal h hdot hlead hcut
      rw [hkind, hquery, hcandidates]
      simp only [Candidates.contains, List.contains_iff_mem, List.mem_map, Option.mem_toList]
      refine ⟨by decide, ?_, ?_⟩
      · rintro ⟨⟨f, hcurrent, hkey⟩, rfl⟩
        exact .internal cut f hlead hcut hcurrent hkey
      · rintro (⟨_, rfl⟩ | ⟨other, f, _, hother, hcurrent, hkey⟩ | ⟨_, _, hnone⟩)
        · exact absurd rfl hlead
        · obtain rfl := Option.some.inj (hcut.symm.trans hother)
          exact ⟨⟨f, hcurrent, hkey⟩, rfl⟩
        · simp [hcut] at hnone
    | none =>
      obtain ⟨known, some, hknown⟩ := hread hlead
      cases hq : fileQualifier? cx text with
      | none => exact absurd hknown (fileQualifier?_eq_none_iff.mp hq known some)
      | some q =>
        obtain ⟨⟨first, hfirst⟩, hlongest, hkeys⟩ := fileQualifier?_eq_some hq
        obtain ⟨hkind, hquery, hcandidates⟩ := detectScope_named h hdot hlead hcut hq
        rw [hkind, hquery, hcandidates]
        simp only [Candidates.contains, List.contains_iff_mem, hkeys]
        refine ⟨by decide, ?_, ?_⟩
        · rintro ⟨hreads, rfl⟩
          exact .named q.text hlead hcut hreads hlongest
        · rintro (⟨_, rfl⟩ | ⟨_, _, _, hsome⟩ | ⟨other, _, _, hreads, hother⟩)
          · exact absurd rfl hlead
          · simp [hcut] at hsome
          · -- two longest qualifiers are cut at the same place
            obtain rfl := hreads.cut_inj hfirst
              (Nat.le_antisymm (hlongest other key hreads) (hother q.text first hfirst))
            exact ⟨hreads, rfl⟩

end Selecting

/-! ## Names as qualifiers -/

theorem cutName?_self (name rest : List Char) : cutName? name (name ++ rest) = some (name, rest) :=
  cutName?_eq_some_iff.mpr ⟨List.forall₂_same.mpr fun _ _ => rfl, rfl⟩

/-- A record is read by its own display name. -/
theorem reads_displayName {cx : ScopeContext} {f : SourceFile} (hf : f ∈ cx.index.files)
    (hne : f.displayName ≠ "") (rest : List Char) :
    Reads cx (f.displayName.toList ++ '.' :: rest) ⟨f.displayName.toList, rest⟩ f.key := by
  refine ⟨f.displayName, f.displayName, ?_, ?_, ?_⟩
  · exact List.mem_append_left _ (List.mem_map.mpr ⟨f, hf, rfl⟩)
  · simp [cutQualifier?, cutName?_self, hne]
  · exact List.mem_map.mpr ⟨f, List.mem_filter.mpr ⟨hf, by simp [SourceFile.isNamed, asciiEqual]⟩, rfl⟩

section Qualifying

variable {cx : ScopeContext} {f : SourceFile} {key : Key} {qualifier name query : List Char}

/-- The display name of a record selects it, unless an earlier rule or a longer name reads the text. -/
theorem selects_displayName (hf : f ∈ cx.index.files) (hlead : f.displayName.toList.head? ≠ some '.')
    (hcut : cutQualifier? cx.internalModifier (f.displayName.toList ++ '.' :: name) = none)
    (hlongest : Longest cx (f.displayName.toList ++ '.' :: name) ⟨f.displayName.toList, name⟩) :
    Selects cx (f.displayName.toList ++ '.' :: name) f.key name := by
  by_cases hempty : f.displayName = ""
  · exact .everywhere _ (by simp [hempty])
  · have hhead : (f.displayName.toList ++ '.' :: name).head? ≠ some '.' := by
      rwa [List.head?_append_of_ne_nil _ (by simpa using hempty)]
    exact .named _ hhead hcut (reads_displayName hf hempty name) hlongest

/-- Behind a qualifier that begins with a dot no name is matched by what the text asks for. -/
theorem not_matches_of_selects (hlead : qualifier.head? = some '.')
    (hcell : InCell (qualifier ++ '.' :: name)) (h : Selects cx (qualifier ++ '.' :: name) key query) :
    ¬ Matches query name := by
  obtain ⟨rest, rfl⟩ := List.head?_eq_some_iff.mp hlead
  cases h with
  | everywhere _ heq =>
    -- the query is the rest of the qualifier, the dot and the name, so it is too long
    obtain ⟨-, rfl⟩ := List.cons.inj heq
    refine not_matches_append_cons (by decide) (fun d hd => ?_) rest
    obtain ⟨-, hend⟩ := trim_eq_self_iff.mp hcell.trimmed
    exact hend d (by rwa [List.getLast?_append_of_ne_nil _ (List.cons_ne_nil _ _)])
  | internal cut g hother => exact absurd rfl hother
  | named cut hother => exact absurd rfl hother

end Qualifying

/-! ## Queries without a limit -/

section Unlimited

variable {index : Index} (h : index.Consistent) {options : QueryOptions} {path : Option Path}
  {typed : List Char} {f : SourceFile} {k : Keyword} {cap : Nat}
include h

theorem length_rankedMatches_le :
    (rankedMatches options path typed index).length ≤ index.keywords.length := by
  have hsub : (rankedMatches options path typed index).map (·.keyword.id) ⊆
      index.keywords.map (·.id) := by
    intro id hid
    obtain ⟨m, hm, rfl⟩ := List.mem_map.mp hid
    have hm := (mem_rankedMatches_iff h).mp hm
    exact List.mem_map.mpr ⟨m.keyword,
      List.mem_flatMap.mpr ⟨m.file, hm.file_mem, List.mem_of_getElem? hm.placed⟩, rfl⟩
  have hlength := (List.subperm_of_subset (nodup_rankedMatches h) hsub).length_le
  rwa [List.length_map, List.length_map] at hlength

/-- Without a limit a visible keyword is suggested if its record is searched and its name matches. -/
theorem exists_suggestion_iff (hcap : index.keywords.length ≤ cap) (hf : f ∈ index.files)
    (hk : k ∈ f.keywords) (hvisible : k.isLocal = true → path.bind index.fileByPath? = some f)
    (hkind : (detectScope (contextOf index options path) typed).kind ≠ .invalid) :
    (∃ s ∈ keywordSuggestions index { options with maxSuggestions := cap } path typed,
      s.keyword = some k.id) ↔
    (detectScope (contextOf index options path) typed).candidates.contains f.key = true ∧
      Matches (detectScope (contextOf index options path) typed).query k.name.toList := by
  let unlimited : QueryOptions := { options with maxSuggestions := cap }
  rw [← score?_isSome_iff, Option.isSome_iff_exists]
  constructor
  · rintro ⟨s, hs, hid⟩
    obtain ⟨m, hm, rfl⟩ := exists_of_mem_keywordSuggestions h hs
    obtain ⟨rfl, rfl⟩ := h.eq_of_id_eq hm.file_mem hf (List.mem_of_getElem? hm.placed) hk
      (Option.some.inj hid)
    exact ⟨hm.searched, m.score, hm.scored⟩
  · rintro ⟨hsearched, score, hscore⟩
    have hplaced : f.keywords[k.id.ordinal]? = some k := by
      obtain ⟨i, hi⟩ := List.mem_iff_getElem?.mp hk
      rw [h.numbered f hf i k hi, hi]
    have hm : (⟨f, k, score⟩ : Match) ∈ rankedMatches unlimited path typed index :=
      (mem_rankedMatches_iff h).mpr ⟨hf, hsearched, hplaced, hvisible, hscore⟩
    have hall : keywordSuggestions index unlimited path typed =
        ((rankedMatches unlimited path typed index).take cap).map
          (suggestionOf unlimited path typed index) := keywordSuggestions_of_valid hkind
    rw [List.take_of_length_le ((length_rankedMatches_le h).trans hcap)] at hall
    exact ⟨suggestionOf unlimited path typed index ⟨f, k, score⟩,
      hall ▸ List.mem_map_of_mem hm, rfl⟩

/-! ## Accepted suggestions -/

/-- A suggested keyword is found again by its qualified name if the display name of its record does not
begin with a dot, the internal modifier does not read the name, and nothing longer than the display name
does. In general it is found again exactly if the rules of scopes select its record by the name, and a
query in it that its own name matches; never if the display name begins with a dot. -/
theorem accepted_iff (options : QueryOptions) (path : Option Path) (typed : List Char) {s : Suggestion}
    (hs : s ∈ keywordSuggestions index options path typed) (hf : f ∈ index.files) (hk : k ∈ f.keywords)
    (hid : s.keyword = some k.id) (hdisplayed : InCell f.displayName.toList)
    (hnamed : InCell k.name.toList) (hcap : index.keywords.length ≤ cap) :
    let cx := contextOf index options path
    let text := (f.displayName ++ "." ++ k.name).toList
    let isFound := ∃ s ∈ keywordSuggestions index { options with maxSuggestions := cap } path text,
      s.keyword = some k.id
    (f.displayName.toList.head? ≠ some '.' → cutQualifier? cx.internalModifier text = none →
      (∀ cut key, Reads cx text cut key →
        byteLength cut.typed ≤ byteLength f.displayName.toList) → isFound) ∧
    (isFound ↔ ∃ query, Selects cx text f.key query ∧ Matches query k.name.toList) ∧
    (f.displayName.toList.head? = some '.' → ¬ isFound) := by
  intro cx text isFound
  have htext : text = f.displayName.toList ++ '.' :: k.name.toList := by
    simp [text, String.toList_append]
  have hcell : InCell (f.displayName.toList ++ '.' :: k.name.toList) := hdisplayed.qualified hnamed
  have hdot : '.' ∈ f.displayName.toList ++ '.' :: k.name.toList := by simp
  -- the record is read by its own name, unless that is empty and the text begins with the dot
  have hread : (f.displayName.toList ++ '.' :: k.name.toList).head? ≠ some '.' →
      ∃ cut key, Reads cx (f.displayName.toList ++ '.' :: k.name.toList) cut key := fun hlead =>
    ⟨_, _, reads_displayName hf (fun hempty => hlead (by simp [hempty])) k.name.toList⟩
  have hvisible : k.isLocal = true → path.bind index.fileByPath? = some f := by
    obtain ⟨m, hm, rfl⟩ := exists_of_mem_keywordSuggestions h hs
    obtain ⟨rfl, rfl⟩ := h.eq_of_id_eq hm.file_mem hf (List.mem_of_getElem? hm.placed) hk
      (Option.some.inj hid)
    exact hm.visible
  have hfound : isFound ↔ ∃ query, Selects cx text f.key query ∧ Matches query k.name.toList := by
    have hselects : ∀ query, (detectScope cx text).kind ≠ .invalid ∧
        ((detectScope cx text).candidates.contains f.key = true ∧ (detectScope cx text).query = query ↔
          Selects cx text f.key query) := by
      intro query
      rw [htext]
      exact detectScope_selects hcell hdot hread
    refine (exists_suggestion_iff h hcap hf hk hvisible (hselects []).1).trans ?_
    simp only [← (hselects _).2]
    exact ⟨fun ⟨hsearched, hmatches⟩ => ⟨_, ⟨hsearched, rfl⟩, hmatches⟩,
      fun ⟨_, ⟨hsearched, hquery⟩, hmatches⟩ => ⟨hsearched, hquery ▸ hmatches⟩⟩
  rw [hfound, htext]
  refine ⟨fun hlead hcut hlongest => ?_, Iff.rfl, ?_⟩
  · exact ⟨_, selects_displayName hf hlead hcut hlongest, matches_self hnamed.trimmed⟩
  · rintro hlead ⟨query, hselected, hmatches⟩
    exact not_matches_of_selects hlead hcell hselected hmatches

end Unlimited

/-- A suite that imports four resources, each of which shares a name with a resource elsewhere. -/
def shadowed : List Index.Change :=
  let keyword (name : String) : Declaration := ⟨name, "", [], none⟩
  [.addTable { resources := ["this.robot", ".a.robot", "a.robot", "c.robot"] } ⟨"/p/suite.robot"⟩,
    .addTable { keywords := [keyword "Foo"] } ⟨"/p/this.robot"⟩,
    .addTable { keywords := [keyword "Bar"] } ⟨"/p/.a.robot"⟩,
    .addTable { keywords := [keyword "b.c"] } ⟨"/p/a.robot"⟩,
    .addTable { keywords := [keyword "Baz"] } ⟨"/p/c.robot"⟩,
    .addTable { keywords := [keyword "Foo", keyword "Bar", keyword "b.c", keyword "Baz"] }
      ⟨"/p/x/a.b.robot"⟩]

/-- Nothing else reads `c.Baz`, as which the keyword is suggested. -/
theorem accepted_shadowed :
    let index := Index.after shadowed
    let options : QueryOptions := { globalAmbiguity := true }
    let suite : Option Path := some ⟨"/p/suite.robot"⟩
    ∃ f ∈ index.files, ∃ k ∈ f.keywords, f.displayName = "c" ∧ k.name = "Baz" ∧
      (∃ s ∈ keywordSuggestions index options suite "baz".toList, s.keyword = some k.id ∧
        s.insertionText = insertionText options (f.displayName ++ "." ++ k.name) k ∧
        s.replacement = ⟨0, 3⟩) ∧
      ∃ s ∈ keywordSuggestions index { options with maxSuggestions := 2 ^ 64 - 1 } suite
        (f.displayName ++ "." ++ k.name).toList, s.keyword = some k.id := by
  intro index options suite
  let keyword : Keyword := ⟨⟨⟨"/p/c.robot"⟩, 0⟩, "Baz", "", [], none, false⟩
  have hfile : ∃ f ∈ index.files, f.displayName = "c" ∧ keyword ∈ f.keywords := by
    decide +kernel
  obtain ⟨f, hf, hname, hk⟩ := hfile
  have hsuggested : ∃ s ∈ keywordSuggestions index options suite "baz".toList,
      s.keyword = some keyword.id ∧
      s.insertionText = insertionText options ("c" ++ "." ++ keyword.name) keyword ∧
      s.replacement = ⟨0, 3⟩ := by
    decide +kernel
  have hcount : index.keywords.length ≤ 2 ^ 64 - 1 := by decide +kernel
  have hlongest : ∀ pair ∈ qualifiers (contextOf index options suite),
      ∀ cut ∈ cutQualifier? pair.1 ("c" ++ "." ++ "Baz").toList, byteLength cut.typed ≤ 1 := by
    decide +kernel
  refine ⟨f, hf, keyword, hk, hname, rfl, by rwa [hname], ?_⟩
  obtain ⟨s, hs, hid, -⟩ := hsuggested
  refine (accepted_iff (Index.consistent_after shadowed) options suite "baz".toList hs hf hk hid ?_ ?_
    hcount).1 ?_ ?_ ?_
  · rw [hname]
    decide +kernel
  · decide +kernel
  · rw [hname]
    decide +kernel
  · rw [hname]
    decide +kernel
  · rw [hname]
    rintro cut key ⟨name, displayed, hpair, hcut, -⟩
    exact hlongest (name, displayed) hpair cut hcut

/-- The internal modifier reads `this.Foo`, the leading dot `.a.Bar`, and the longer display name `a.b` reads
`a.b.c`. -/
theorem qualified_unaccepted :
    let index := Index.after shadowed
    let options : QueryOptions := { globalAmbiguity := true }
    let suite : Option Path := some ⟨"/p/suite.robot"⟩
    ∀ named ∈ [("this", "Foo"), (".a", "Bar"), ("a", "b.c")],
      ∃ f ∈ index.files, ∃ k ∈ f.keywords, f.displayName = named.1 ∧ k.name = named.2 ∧
        InCell f.displayName.toList ∧ InCell k.name.toList ∧
        (∃ s ∈ keywordSuggestions index options suite named.2.toList, s.keyword = some k.id ∧
          s.insertionText = insertionText options (f.displayName ++ "." ++ k.name) k ∧
          s.replacement = ⟨0, byteLength named.2.toList⟩) ∧
        ¬ ∃ s ∈ keywordSuggestions index { options with maxSuggestions := 2 ^ 64 - 1 } suite
          (f.displayName ++ "." ++ k.name).toList, s.keyword = some k.id := by
  decide +kernel

end KeywordIndex.Query
