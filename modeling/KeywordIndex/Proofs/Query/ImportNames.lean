import KeywordIndex.Proofs.Query.Ranking
import KeywordIndex.Proofs.Text.Separator
import Mathlib.Data.List.Sort

namespace KeywordIndex.Query

open Text

/-! # The names to import

A name is suggested for an import if some record is displayed by it and it begins with what is typed, as a
whole or in its last part (`Begins`). The names are listed in the order of their bytes, so which ones there
are and in which order is a matter of the set of records. The label beside a name is taken from the first
record displayed by it. So indexes with the same records suggest the same names, with the same labels unless
a library and a table file share one of them and change places (`importSuggestions_same_records`).
-/

/-! ## What begins with the query -/

/-- A name begins with a query in lowercase, or what follows its last dot does. -/
def Begins (query : List Char) (name : String) : Prop :=
  query <+: lower name.toList ∨
    ∃ lead last, lower name.toList = lead ++ '.' :: last ∧ '.' ∉ last ∧ query <+: last

theorem getLast?_split_append {c : Char} {last : List Char} (h : c ∉ last) (lead : List Char) :
    (split c (lead ++ c :: last)).getLast? = some last := by
  rw [split_append, split_of_not_mem h, List.getLast?_concat]

theorem startsName_iff {query : List Char} {name : String} :
    startsName query name = true ↔ Begins query name := by
  rw [startsName, Begins]
  simp only [Bool.or_eq_true, List.isPrefixOf_iff_prefix]
  by_cases hdot : '.' ∈ lower name.toList
  · -- the text is cut at its last dot
    obtain ⟨front, back, hcut, hfront⟩ := List.eq_append_cons_of_mem (List.mem_reverse.mpr hdot)
    have hsplit : lower name.toList = back.reverse ++ '.' :: front.reverse := by
      simpa using congrArg List.reverse hcut
    have hlast : '.' ∉ front.reverse := fun hmem => hfront (List.mem_reverse.mp hmem)
    refine or_congr_right ?_
    rw [hsplit, getLast?_split_append hlast, Option.getD_some]
    constructor
    · exact fun h => ⟨back.reverse, front.reverse, rfl, hlast, h⟩
    · rintro ⟨lead, last, hother, hnone, h⟩
      have hparts := congrArg (fun text => (split '.' text).getLast?) hother
      simp only [getLast?_split_append hlast, getLast?_split_append hnone, Option.some.injEq] at hparts
      exact hparts ▸ h
  · -- without a dot there is only the whole text
    rw [split_of_not_mem hdot, List.getLast?_singleton, Option.getD_some, or_self]
    refine (or_iff_left ?_).symm
    rintro ⟨lead, last, hsplit, -, -⟩
    exact hdot (hsplit ▸ by simp)

/-! ## The first record of each name -/

theorem firstOfNames_concat (files : List SourceFile) (f : SourceFile) :
    firstOfNames (files ++ [f]) =
      if (firstOfNames files).any (·.displayName == f.displayName) then firstOfNames files
      else firstOfNames files ++ [f] :=
  List.foldl_concat _ _ _ _

/-- Of the records with one display name, the first is kept. -/
theorem mem_firstOfNames_iff {files : List SourceFile} {f : SourceFile} :
    f ∈ firstOfNames files ↔ files.find? (·.displayName = f.displayName) = some f := by
  induction files using List.reverseRecOn generalizing f with
  | nil => simp [firstOfNames]
  | append_singleton rest g ih =>
    have hnamed : (firstOfNames rest).any (·.displayName == g.displayName) =
        (rest.find? (·.displayName = g.displayName)).isSome := by
      rw [Bool.eq_iff_iff, List.any_eq_true, Option.isSome_iff_exists]
      constructor
      · rintro ⟨k, hk, hname⟩
        rw [beq_iff_eq] at hname
        exact ⟨k, hname ▸ ih.mp hk⟩
      · rintro ⟨k, hk⟩
        have hname : k.displayName = g.displayName := by simpa using List.find?_some hk
        exact ⟨k, ih.mpr (hname ▸ hk), by simp [hname]⟩
    rw [firstOfNames_concat, hnamed, List.find?_append]
    cases hrest : rest.find? (·.displayName = g.displayName) with
    | some k =>
      -- a record of that name has been kept before
      rw [Option.isSome_some, if_pos rfl, ih]
      by_cases hname : g.displayName = f.displayName
      · rw [← hname, hrest]
        simp
      · simp [hname]
    | none =>
      rw [Option.isSome_none, if_neg Bool.false_ne_true, List.mem_append, List.mem_singleton, ih]
      by_cases hname : g.displayName = f.displayName
      · rw [← hname, hrest]
        simp [eq_comm]
      · have hne : f ≠ g := fun e => hname (e ▸ rfl)
        simp [hname, hne]

/-- No display name is kept twice. -/
theorem nodup_firstOfNames (files : List SourceFile) :
    ((firstOfNames files).map (·.displayName)).Nodup := by
  induction files using List.reverseRecOn with
  | nil => exact List.nodup_nil
  | append_singleton rest g ih =>
    rw [firstOfNames_concat]
    split
    · exact ih
    · next hnew =>
      rw [List.map_append, List.map_singleton]
      refine List.nodup_append.mpr ⟨ih, List.nodup_singleton _, ?_⟩
      rintro name hname other hother rfl
      rw [List.mem_singleton] at hother
      obtain ⟨k, hk, hsame⟩ := List.mem_map.mp hname
      exact hnew (List.any_eq_true.mpr ⟨k, hk, by simp [hsame, hother]⟩)

/-! ## The listed names -/

/-- The records whose names are listed, in the order of the names. -/
def listedRecords (index : Index) (query : List Char) : List SourceFile :=
  (firstOfNames (index.files.filter fun f => startsName query f.displayName)).mergeSort
    fun f g => f.displayName ≤ g.displayName

/-- Whether the first record displayed by a name is that of a library. -/
def standsForLibrary (index : Index) (name : String) : Bool :=
  (index.files.find? (·.displayName = name)).any (·.isLibrary)

/-- The suggestion of a name, which is labelled as that of a library or a resource. -/
def nameSuggestion (typed : List Char) (name : String) (isLibrary : Bool) : Suggestion where
  insertionText := name
  displayText := name
  kind := .importName
  rightLabel := if isLibrary then "Library" else "Resource"
  replacement := ⟨0, byteLength typed⟩

section Listed

variable {index : Index} {query : List Char} {f : SourceFile} {name : String}

theorem mem_listedRecords_iff : f ∈ listedRecords index query ↔
    index.files.find? (·.displayName = f.displayName) = some f ∧ Begins query f.displayName := by
  have hfind : (index.files.filter fun f => startsName query f.displayName).find?
      (·.displayName = f.displayName) =
      if startsName query f.displayName then index.files.find? (·.displayName = f.displayName) else none := by
    rw [List.find?_filter]
    split
    · next hstarts =>
      refine congrArg (List.find? · _) (funext fun g => ?_)
      by_cases hname : g.displayName = f.displayName <;> simp [hname, hstarts]
    · next hstarts =>
      refine List.find?_eq_none.mpr fun g _ => ?_
      by_cases hname : g.displayName = f.displayName <;> simp [hname, hstarts]
  rw [listedRecords, (List.mergeSort_perm _ _).mem_iff, mem_firstOfNames_iff, hfind, ← startsName_iff]
  split
  · next hstarts => exact (and_iff_left hstarts).symm
  · next hstarts => exact iff_of_false (by simp) fun h => hstarts h.2

theorem mem_listedNames_iff : name ∈ (listedRecords index query).map (·.displayName) ↔
    (∃ f ∈ index.files, f.displayName = name) ∧ Begins query name := by
  constructor
  · intro hmem
    obtain ⟨f, hf, rfl⟩ := List.mem_map.mp hmem
    obtain ⟨hfirst, hbegins⟩ := mem_listedRecords_iff.mp hf
    exact ⟨⟨f, List.mem_of_find?_eq_some hfirst, rfl⟩, hbegins⟩
  · rintro ⟨⟨g, hg, hname⟩, hbegins⟩
    obtain ⟨f, hfirst⟩ := Option.isSome_iff_exists.mp
      (List.find?_isSome (p := (·.displayName = name)).mpr ⟨g, hg, by simpa using hname⟩)
    obtain rfl : f.displayName = name := by simpa using List.find?_some hfirst
    exact List.mem_map_of_mem (mem_listedRecords_iff.mpr ⟨hfirst, hbegins⟩)

theorem pairwise_listedNames (index : Index) (query : List Char) :
    ((listedRecords index query).map (·.displayName)).Pairwise (· < ·) := by
  rw [List.pairwise_map, listedRecords]
  have hnodup := List.pairwise_map.mp
    (nodup_firstOfNames (index.files.filter fun f => startsName query f.displayName))
  -- no two names are equal, so the order is strict
  refine (pairwise_mergeSort SourceFile.displayName (R := fun _ _ => False) hnodup).imp fun h => ?_
  exact h.resolve_right And.right

theorem importSuggestions_eq (index : Index) {options : QueryOptions}
    (hshown : options.showLibrarySuggestions = true) (typed : List Char) :
    importSuggestions index options typed =
      ((listedRecords index (lower (trim typed))).map (·.displayName)).map fun name =>
        nameSuggestion typed name (standsForLibrary index name) := by
  rw [importSuggestions, hshown, List.map_map]
  refine List.map_congr_left fun f hf => ?_
  have hfirst := (mem_listedRecords_iff.mp hf).1
  rw [Function.comp_apply, standsForLibrary, hfirst]
  rfl

end Listed

theorem nameSuggestion_inj {typed : List Char} {name : String} {isLibrary other : Bool} :
    nameSuggestion typed name isLibrary = nameSuggestion typed name other ↔ isLibrary = other := by
  cases isLibrary <;> cases other <;> simp [nameSuggestion]

/-- Indexes with the same records, in whatever order, suggest the same names to import: each display name that
begins with what is typed, once, in the order of the bytes. Only the label that says what a name stands for
is taken from the record that comes first. So the suggestions are the same if and only if each name that is
listed stands for a library in both indexes or in neither. -/
theorem importSuggestions_same_records {a b : Index} (hsame : ∀ f, f ∈ a.files ↔ f ∈ b.files)
    (options : QueryOptions) (typed : List Char) :
    ∃ names : List String, names.Pairwise (fun m n => bytesOf m < bytesOf n) ∧
      (∀ name, name ∈ names ↔ options.showLibrarySuggestions = true ∧
        (∃ f ∈ a.files, f.displayName = name) ∧ Begins (lower (trim typed)) name) ∧
      importSuggestions a options typed =
        names.map (fun name => nameSuggestion typed name (standsForLibrary a name)) ∧
      importSuggestions b options typed =
        names.map (fun name => nameSuggestion typed name (standsForLibrary b name)) ∧
      (importSuggestions a options typed = importSuggestions b options typed ↔
        ∀ name ∈ names, standsForLibrary a name = standsForLibrary b name) := by
  cases hshown : options.showLibrarySuggestions with
  | false => exact ⟨[], List.Pairwise.nil, by simp, by simp [importSuggestions, hshown]⟩
  | true =>
    let names := (listedRecords a (lower (trim typed))).map (·.displayName)
    have hmem : ∀ name, name ∈ names ↔
        (∃ f ∈ a.files, f.displayName = name) ∧ Begins (lower (trim typed)) name :=
      fun name => mem_listedNames_iff
    have hnames : (listedRecords b (lower (trim typed))).map (·.displayName) = names := by
      refine (pairwise_listedNames b _).eq_of_mem_iff (pairwise_listedNames a _) fun name => ?_
      rw [mem_listedNames_iff, hmem]
      simp only [hsame]
    have ha := importSuggestions_eq a hshown typed
    have hb := importSuggestions_eq b hshown typed
    rw [hnames] at hb
    refine ⟨names, (pairwise_listedNames a _).imp bytesOf_lt_iff.mpr, fun name => ?_, ha, hb, ?_⟩
    · rw [hmem, and_iff_right rfl]
    · rw [ha, hb, List.map_inj_left]
      simp only [nameSuggestion_inj]
      rfl

/-- A table file and a library that are displayed by one name, and beside them a resource. -/
def oneName : List Index.Change :=
  [.addTable {} ⟨"/p/BuiltIn.robot"⟩, .addLibrary {} "BuiltIn" none none,
    .addTable {} ⟨"/p/my.keywords.robot"⟩]

/-- The table file is read again, and so comes to stand last. -/
def oneNameReread : List Index.Change :=
  oneName ++ [.remove ⟨"/p/builtin.robot"⟩, .addTable {} ⟨"/p/BuiltIn.robot"⟩]

theorem sameRecords_oneName :
    ∀ f, f ∈ (Index.after oneName).files ↔ f ∈ (Index.after oneNameReread).files := by
  have hperm : (Index.after oneName).files.Perm (Index.after oneNameReread).files := by decide +kernel
  exact fun f => hperm.mem_iff

/-- A name that only the resource has is suggested alike. -/
theorem importSuggestions_same_records_reread :
    importSuggestions (Index.after oneName) {} " Key".toList =
      importSuggestions (Index.after oneNameReread) {} " Key".toList := by
  obtain ⟨names, -, hmem, -, -, hiff⟩ := importSuggestions_same_records sameRecords_oneName {} " Key".toList
  refine hiff.mpr fun name hname => ?_
  obtain ⟨-, ⟨f, hf, rfl⟩, hbegins⟩ := (hmem name).mp hname
  have hall : ∀ f ∈ (Index.after oneName).files,
      startsName (lower (trim " Key".toList)) f.displayName = true →
      standsForLibrary (Index.after oneName) f.displayName =
        standsForLibrary (Index.after oneNameReread) f.displayName := by decide +kernel
  exact hall f hf (startsName_iff.mpr hbegins)

/-- The name that both have is labelled by the one that stands first. -/
theorem importSuggestions_reread_differ :
    (∀ f, f ∈ (Index.after oneName).files ↔ f ∈ (Index.after oneNameReread).files) ∧
      importSuggestions (Index.after oneName) {} "bui".toList ≠
        importSuggestions (Index.after oneNameReread) {} "bui".toList := by
  let named (index : Index) : List SourceFile :=
    firstOfNames (index.files.filter fun f => startsName (lower (trim "bui".toList)) f.displayName)
  have hfirst : named (Index.after oneName) = [.ofTable {} ⟨"/p/BuiltIn.robot"⟩] := by decide +kernel
  have hreread : named (Index.after oneNameReread) = [.ofLibrary {} "BuiltIn" none none] := by decide +kernel
  have hlabels : importSuggestion "bui".toList (.ofTable {} ⟨"/p/BuiltIn.robot"⟩) ≠
      importSuggestion "bui".toList (.ofLibrary {} "BuiltIn" none none) := by decide +kernel
  refine ⟨sameRecords_oneName, fun hequal => hlabels ?_⟩
  simp only [named] at hfirst hreread
  simpa only [importSuggestions, hfirst, hreread, List.mergeSort_singleton, List.map_singleton,
    List.cons.injEq, and_true, Bool.not_true, Bool.false_eq_true, if_false] using hequal

end KeywordIndex.Query
