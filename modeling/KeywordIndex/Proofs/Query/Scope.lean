import KeywordIndex.Proofs.Index.Consistency
import KeywordIndex.Proofs.Index.Views
import KeywordIndex.Proofs.Text.Slices
import KeywordIndex.Query.Scope
import Mathlib.Data.List.Forall2

namespace KeywordIndex.Query

open Text

/-! # What a scope depends on

A scope is found from lists that stand in the order of the records, but depends on the records alone: two
indexes with the same records give scopes that agree (`detectScope_agrees`). What could tell them apart is
the choice among qualifiers. It is settled by length, since a text has one qualifier of each length
(`cut_inj`), and all that the longest one stands for is taken (`fileQualifier?_eq_some`).
-/

/-! ## Cutting qualifiers -/

/-- The characters of the name and of what was typed have the same lowercase forms, one by one. -/
def Spells (name typed : List Char) : Prop := List.Forall₂ (fun c d => lowerChar d = lowerChar c) name typed

section Cutting

variable {name other : String} {text typed rest : List Char} {cut a b : Qualified}

theorem cutName?_eq_some_iff {name : List Char} :
    cutName? name text = some (typed, rest) ↔ Spells name typed ∧ text = typed ++ rest := by
  induction name generalizing text typed with
  | nil =>
    simp only [cutName?, Spells, List.forall₂_nil_left_iff, Option.some.injEq, Prod.mk.injEq]
    constructor
    · rintro ⟨rfl, rfl⟩
      exact ⟨rfl, rfl⟩
    · rintro ⟨rfl, rfl⟩
      exact ⟨rfl, rfl⟩
  | cons c name ih =>
    cases text with
    | nil =>
      simp only [cutName?, reduceCtorEq, false_iff]
      rintro ⟨hspells, htext⟩
      cases hspells
      cases htext
    | cons d text =>
      rw [cutName?]
      split
      · next hsame =>
        simp only [Option.map_eq_some_iff, Prod.exists, Prod.mk.injEq, Spells, List.forall₂_cons_left_iff]
        constructor
        · rintro ⟨more, rest, hcut, rfl, rfl⟩
          obtain ⟨hspells, rfl⟩ := ih.mp hcut
          exact ⟨⟨d, more, hsame, hspells, rfl⟩, rfl⟩
        · rintro ⟨⟨e, more, -, hspells, rfl⟩, htext⟩
          obtain ⟨rfl, rfl⟩ := List.cons.inj htext
          exact ⟨more, rest, ih.mpr ⟨hspells, rfl⟩, rfl, rfl⟩
      · next hother =>
        simp only [reduceCtorEq, false_iff, Spells, List.forall₂_cons_left_iff]
        rintro ⟨⟨e, more, hsame, -, rfl⟩, htext⟩
        obtain ⟨rfl, -⟩ := List.cons.inj htext
        exact hother hsame

/-- A qualifier is cut off exactly if the text begins with the name and a dot. -/
theorem cutQualifier?_eq_some_iff : cutQualifier? name text = some cut ↔
    name ≠ "" ∧ Spells name.toList cut.typed ∧ text = cut.typed ++ '.' :: cut.rest := by
  rw [cutQualifier?]
  by_cases hempty : name = ""
  · simp [hempty]
  · rw [if_neg (by simpa using hempty), ← cutName?_eq_some_iff]
    obtain ⟨typed, rest⟩ := cut
    cases hcut : cutName? name.toList text with
    | none => simp [hempty]
    | some parts =>
      obtain ⟨front, back⟩ := parts
      match back with
      | [] => simp [hempty]
      | c :: back =>
        by_cases hdot : c = '.' <;> simp [hempty, hdot]

theorem cutQualifier?_append (h : cutQualifier? name text = some cut) :
    text = cut.typed ++ '.' :: cut.rest := (cutQualifier?_eq_some_iff.mp h).2.2

/-- Parts of one text are told apart by the sizes of their qualifiers. -/
theorem cut_eq_of_size (ha : text = a.typed ++ '.' :: a.rest)
    (hb : text = b.typed ++ '.' :: b.rest) (hsize : byteLength a.typed = byteLength b.typed) : a = b := by
  obtain ⟨htyped, hrest⟩ := append_inj_of_byteLength (ha.symm.trans hb) hsize
  cases a
  cases b
  simp_all

/-- A text has one qualifier of each size, whatever name it is read as. -/
theorem cut_inj (ha : cutQualifier? name text = some a) (hb : cutQualifier? other text = some b)
    (hsize : byteLength a.typed = byteLength b.typed) : a = b :=
  cut_eq_of_size (cutQualifier?_append ha) (cutQualifier?_append hb) hsize

end Cutting

/-! ## The longest qualifier -/

variable {cx : ScopeContext} {text : List Char} {cut : Qualified} {key : Key} {q : QualifiedFiles}

/-- What is cut from the text is a name that stands for the record with the key. -/
def Reads (cx : ScopeContext) (text : List Char) (cut : Qualified) (key : Key) : Prop :=
  ∃ name displayed, (name, displayed) ∈ qualifiers cx ∧ cutQualifier? name text = some cut ∧
    key ∈ keysNamed cx.index displayed

theorem Reads.cut_inj {other : Qualified} {another : Key} (h : Reads cx text cut key)
    (hother : Reads cx text other another) (hsize : byteLength cut.typed = byteLength other.typed) :
    cut = other := by
  obtain ⟨_, _, _, hcut, _⟩ := h
  obtain ⟨_, _, _, hother, _⟩ := hother
  exact Query.cut_inj hcut hother hsize

theorem mem_qualifications_iff : q ∈ qualifications cx text ↔ ∃ name displayed,
    (name, displayed) ∈ qualifiers cx ∧ cutQualifier? name text = some q.text ∧
      keysNamed cx.index displayed = q.keys ∧ q.keys ≠ [] := by
  simp only [qualifications, List.mem_filterMap, Prod.exists]
  refine exists_congr fun name => exists_congr fun displayed => and_congr_right fun _ => ?_
  obtain ⟨cut, keys⟩ := q
  cases cutQualifier? name text with
  | none => simp
  | some other =>
    cases hkeys : keysNamed cx.index displayed with
    | nil => grind
    | cons key rest => grind

theorem reads_iff :
    Reads cx text cut key ↔ ∃ q ∈ qualifications cx text, q.text = cut ∧ key ∈ q.keys := by
  constructor
  · rintro ⟨name, displayed, hname, hcut, hkey⟩
    exact ⟨⟨cut, keysNamed cx.index displayed⟩, mem_qualifications_iff.mpr
      ⟨name, displayed, hname, hcut, rfl, List.ne_nil_of_mem hkey⟩, rfl, hkey⟩
  · rintro ⟨q, hq, rfl, hkey⟩
    obtain ⟨name, displayed, hname, hcut, hkeys, -⟩ := mem_qualifications_iff.mp hq
    exact ⟨name, displayed, hname, hcut, hkeys ▸ hkey⟩

/-- A reading stands for some record. -/
theorem exists_reads (h : q ∈ qualifications cx text) : ∃ key, Reads cx text q.text key := by
  obtain ⟨-, -, -, -, -, hkeys⟩ := mem_qualifications_iff.mp h
  obtain ⟨key, hkey⟩ := List.exists_mem_of_ne_nil _ hkeys
  exact ⟨key, reads_iff.mpr ⟨q, h, rfl, hkey⟩⟩

/-- The search for the longest reading finds one that is not shorter than any. -/
theorem longest_spec (first : QualifiedFiles) (rest : List QualifiedFiles) :
    let longest := rest.foldl (fun best q => if best.size < q.size then q else best) first
    longest ∈ first :: rest ∧ ∀ q ∈ first :: rest, q.size ≤ longest.size := by
  induction rest generalizing first with
  | nil => simp
  | cons next rest ih =>
    let best := if first.size < next.size then next else first
    have hbest : (best = first ∨ best = next) ∧ first.size ≤ best.size ∧ next.size ≤ best.size := by
      unfold best
      split
      · exact ⟨Or.inr rfl, by omega, Nat.le_refl _⟩
      · exact ⟨Or.inl rfl, Nat.le_refl _, by omega⟩
    obtain ⟨hmem, hle⟩ := ih best
    have hlongest := hle best List.mem_cons_self
    refine ⟨?_, fun q hq => ?_⟩
    · rw [List.foldl_cons]
      rcases List.mem_cons.mp hmem with heq | hmem
      · rw [heq]
        rcases hbest.1 with hbest | hbest <;> simp [hbest]
      · exact List.mem_cons_of_mem _ (List.mem_cons_of_mem _ hmem)
    · rw [List.foldl_cons]
      rcases List.mem_cons.mp hq with rfl | hq
      · exact Nat.le_trans hbest.2.1 hlongest
      · rcases List.mem_cons.mp hq with rfl | hq
        · exact Nat.le_trans hbest.2.2 hlongest
        · exact hle q (List.mem_cons_of_mem _ hq)

theorem fileQualifier?_eq_none_iff :
    fileQualifier? cx text = none ↔ ∀ cut key, ¬ Reads cx text cut key := by
  unfold fileQualifier?
  cases hall : qualifications cx text with
  | nil => simp [reads_iff, hall]
  | cons first rest =>
    obtain ⟨key, hreads⟩ := exists_reads (hall ▸ List.mem_cons_self : first ∈ qualifications cx text)
    simp only [reduceCtorEq, false_iff, not_forall, not_not]
    exact ⟨first.text, key, hreads⟩

/-- What is found is the longest qualifier, with all that it stands for. -/
theorem fileQualifier?_eq_some (h : fileQualifier? cx text = some q) :
    (∃ key, Reads cx text q.text key) ∧
      (∀ cut key, Reads cx text cut key → byteLength cut.typed ≤ byteLength q.text.typed) ∧
      ∀ key, key ∈ q.keys ↔ Reads cx text q.text key := by
  unfold fileQualifier? at h
  cases hall : qualifications cx text with
  | nil => simp [hall] at h
  | cons first rest =>
    simp only [hall, Option.some.injEq] at h
    obtain ⟨hmem, hle⟩ := longest_spec first rest
    generalize rest.foldl _ first = longest at h hmem hle
    obtain rfl := h
    rw [← hall] at hmem hle
    obtain ⟨known, hknown⟩ := exists_reads hmem
    refine ⟨⟨known, hknown⟩, fun cut key hreads => ?_, fun key => ?_⟩
    · obtain ⟨q, hq, rfl, -⟩ := reads_iff.mp hreads
      exact hle q hq
    · simp only [mem_distinct, List.mem_flatMap, List.mem_filter, ← hall, decide_eq_true_eq]
      rw [reads_iff]
      constructor
      · -- what is of the size of the longest one is cut at the same place
        rintro ⟨q, ⟨hq, hsize⟩, hkey⟩
        have hreads := reads_iff.mpr ⟨q, hq, rfl, hkey⟩
        exact ⟨q, hq, hreads.cut_inj hknown hsize, hkey⟩
      · rintro ⟨q, hq, htext, hkey⟩
        exact ⟨q, ⟨hq, by rw [QualifiedFiles.size, htext]; rfl⟩, hkey⟩

/-! ## The order of the records -/

/-- Two scopes that differ at most in how their candidates are listed. -/
structure Scope.Agrees (s t : Scope) : Prop where
  kind : s.kind = t.kind
  query : s.query = t.query
  queryStart : s.queryStart = t.queryStart
  qualifier : s.qualifier = t.qualifier
  contains : ∀ key, s.candidates.contains key = t.candidates.contains key

theorem contains_only {keys others : List Key} (h : ∀ key, key ∈ keys ↔ key ∈ others) (key : Key) :
    (Candidates.only keys).contains key = (Candidates.only others).contains key := by
  rw [Bool.eq_iff_iff]
  simpa [Candidates.contains] using h key

section SameRecords

variable {index : Index} (hsame : ∀ f, f ∈ cx.index.files ↔ f ∈ index.files)
include hsame

theorem mem_keysNamed_congr (name : String) :
    key ∈ keysNamed cx.index name ↔ key ∈ keysNamed index name := by
  simp only [keysNamed, List.mem_map, List.mem_filter, hsame]

theorem reads_congr : Reads cx text cut key ↔ Reads { cx with index := index } text cut key := by
  have hqualifiers : ∀ pair, pair ∈ qualifiers cx ↔ pair ∈ qualifiers { cx with index := index } := by
    simp only [qualifiers, List.mem_append, List.mem_map, hsame, implies_true]
  simp only [Reads, hqualifiers, mem_keysNamed_congr hsame]

theorem fileQualifier?_isNone_congr :
    fileQualifier? cx text = none ↔ fileQualifier? { cx with index := index } text = none := by
  simp only [fileQualifier?_eq_none_iff, reads_congr hsame]

theorem fileQualifier?_congr {r : QualifiedFiles} (hq : fileQualifier? cx text = some q)
    (hr : fileQualifier? { cx with index := index } text = some r) :
    q.text = r.text ∧ ∀ key, key ∈ q.keys ↔ key ∈ r.keys := by
  obtain ⟨⟨known, hknown⟩, hlongest, hkeys⟩ := fileQualifier?_eq_some hq
  obtain ⟨⟨other, hother⟩, hlongest', hkeys'⟩ := fileQualifier?_eq_some hr
  -- each is a reading in both indexes and not longer than the other
  have htext : q.text = r.text := by
    rw [reads_congr hsame] at hknown
    refine hknown.cut_inj hother (Nat.le_antisymm (hlongest' _ _ hknown) ?_)
    exact hlongest _ _ ((reads_congr hsame).mpr hother)
  refine ⟨htext, fun key => ?_⟩
  rw [hkeys, hkeys', htext, reads_congr hsame]

variable (hindex : cx.index.Consistent) (hother : index.Consistent)
include hindex hother

theorem file?_congr (key : Key) : cx.index.file? key = index.file? key := by
  refine Option.ext fun f => ?_
  rw [hindex.file?_eq_some_iff, hother.file?_eq_some_iff, hsame]

theorem contains_congr : cx.index.contains = index.contains := by
  funext key
  rw [Index.contains, file?_congr hsame hindex hother, Index.contains]

theorem mem_importedKeys_congr (r : ResourceImport) :
    key ∈ importedKeys cx.index r ↔ key ∈ importedKeys index r := by
  unfold importedKeys
  rw [contains_congr hsame hindex hother]
  split
  · rfl
  · simp only [List.mem_map, List.mem_filter, hsame]

theorem mem_defaultKeys_congr :
    key ∈ defaultKeys cx ↔ key ∈ defaultKeys { cx with index := index } := by
  unfold defaultKeys
  simp only [contains_congr hsame hindex hother]
  split
  · rfl
  · simp only [mem_distinct, List.mem_append, List.mem_flatMap, mem_keysNamed_congr hsame,
      mem_importedKeys_congr hsame hindex hother]

/-- Indexes with the same records give scopes that agree. -/
theorem detectScope_agrees (typed : List Char) :
    (detectScope cx typed).Agrees (detectScope { cx with index := index } typed) := by
  have hdefault := contains_only fun _ => mem_defaultKeys_congr hsame hindex hother
  unfold detectScope
  simp only
  split
  · exact ⟨rfl, rfl, rfl, rfl, fun _ => rfl⟩
  · split
    · exact ⟨rfl, rfl, rfl, rfl, hdefault⟩
    · split
      · exact ⟨rfl, rfl, rfl, rfl, fun _ => rfl⟩
      · split
        · exact ⟨rfl, rfl, rfl, rfl, fun _ => rfl⟩
        · cases hq : fileQualifier? cx (trim typed) with
          | none =>
            rw [(fileQualifier?_isNone_congr hsame).mp hq]
            exact ⟨rfl, rfl, rfl, rfl, hdefault⟩
          | some q =>
            cases hr : fileQualifier? { cx with index := index } (trim typed) with
            | none => simp [(fileQualifier?_isNone_congr hsame).mpr hr] at hq
            | some r =>
              obtain ⟨htext, hkeys⟩ := fileQualifier?_congr hsame hq hr
              simp only [htext]
              exact ⟨rfl, rfl, rfl, rfl, contains_only hkeys⟩

end SameRecords

end KeywordIndex.Query
