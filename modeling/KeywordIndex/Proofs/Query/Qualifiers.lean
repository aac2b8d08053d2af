import KeywordIndex.Proofs.Query.Scope
import KeywordIndex.Query.Suggestion
import Mathlib.Data.Option.Basic
import Mathlib.Data.List.Perm.Basic

namespace KeywordIndex.Query

open Text

/-! # The longest qualifier

A text may begin with several names that stand for records: display names with and without dots in them,
and local names of libraries. The longest one qualifies the keyword, and names of that length are read
together (`longest_qualifier_wins`). Of one pass over the names only the longest reading so far has to be
kept (`consider`), and since it is the `Best` of the names visited after each of them, their order leaves no
trace.
-/

/-! ## Names that stand for records -/

/-- A name that may qualify a keyword, and the display name of the records that it stands for. -/
inductive Stands (cx : ScopeContext) : (name displayed : String) → Prop where
  /-- A record goes by its display name. -/
  | record (f : SourceFile) (hf : f ∈ cx.index.files) : Stands cx f.displayName f.displayName
  /-- A library goes by its local name in the current file. -/
  | library (f : SourceFile) (l : LibraryImport) (name : String) (hcurrent : cx.current = some f)
      (hl : l ∈ f.libraries) (hname : l.localName = some name) : Stands cx name l.name

/-- The text begins with the name and a dot, and the name stands for the record. -/
structure NamedBy (cx : ScopeContext) (text typed : List Char) (f : SourceFile)
    (name displayed : String) : Prop where
  stands : Stands cx name displayed
  nonempty : name ≠ ""
  spelled : Spells name.toList typed
  dotted : typed ++ ['.'] <+: text
  file_mem : f ∈ cx.index.files
  shown : f.isNamed displayed = true

/-- What was typed before a dot at the start of the text qualifies keywords of the record. -/
def Qualifies (cx : ScopeContext) (text typed : List Char) (f : SourceFile) : Prop :=
  ∃ name displayed, NamedBy cx text typed f name displayed

variable {cx : ScopeContext} {index : Index} {text typed rest : List Char} {name displayed : String}
  {cut : Qualified} {key : Key} {q : QualifiedFiles}

theorem mem_qualifiers_iff : (name, displayed) ∈ qualifiers cx ↔ Stands cx name displayed := by
  rw [qualifiers, List.mem_append, List.mem_map]
  constructor
  · rintro (⟨f, hf, heq⟩ | hmem)
    · obtain ⟨rfl, rfl⟩ := Prod.mk.inj heq
      exact .record f hf
    · cases hcurrent : cx.current with
      | none => simp [hcurrent] at hmem
      | some f =>
        simp only [hcurrent, List.mem_filterMap, Option.map_eq_some_iff, Prod.mk.injEq] at hmem
        obtain ⟨l, hl, other, hother, rfl, rfl⟩ := hmem
        exact .library f l other hcurrent hl hother
  · rintro (⟨f, hf⟩ | ⟨f, l, _, hcurrent, hl, hname⟩)
    · exact .inl ⟨f, hf, rfl⟩
    · right
      simp only [hcurrent, List.mem_filterMap]
      exact ⟨l, hl, by rw [hname]; rfl⟩

theorem reads_iff_qualifies : Reads cx text cut key ↔
    text = cut.typed ++ '.' :: cut.rest ∧ ∃ f, Qualifies cx text cut.typed f ∧ f.key = key := by
  constructor
  · rintro ⟨name, displayed, hname, hcut, hkey⟩
    obtain ⟨hne, hspells, htext⟩ := cutQualifier?_eq_some_iff.mp hcut
    obtain ⟨f, hf, rfl⟩ := List.mem_map.mp hkey
    obtain ⟨hf, hshown⟩ := List.mem_filter.mp hf
    have hdotted : cut.typed ++ ['.'] <+: text := ⟨cut.rest, by rw [htext, List.append_assoc]; rfl⟩
    exact ⟨htext, f, ⟨name, displayed, mem_qualifiers_iff.mp hname, hne, hspells, hdotted, hf, hshown⟩, rfl⟩
  · rintro ⟨htext, f, ⟨name, displayed, hstands, hne, hspells, -, hf, hshown⟩, rfl⟩
    refine ⟨name, displayed, mem_qualifiers_iff.mpr hstands, ?_, ?_⟩
    · exact cutQualifier?_eq_some_iff.mpr ⟨hne, hspells, htext⟩
    · exact List.mem_map_of_mem (List.mem_filter.mpr ⟨hf, hshown⟩)

/-- What qualifies is read, with what follows its dot. -/
theorem Qualifies.exists_reads {f : SourceFile} (h : Qualifies cx text typed f) :
    ∃ rest, Reads cx text ⟨typed, rest⟩ f.key := by
  obtain ⟨name, displayed, hnamed⟩ := h
  obtain ⟨rest, htext⟩ := hnamed.dotted
  rw [List.append_assoc] at htext
  exact ⟨rest, reads_iff_qualifies.mpr ⟨htext.symm, f, ⟨name, displayed, hnamed⟩, rfl⟩⟩

/-! ## The best of several readings -/

/-- The best answer, if the text can be read as `R` says: the longest qualifier with all that it stands for,
and none if nothing is read. -/
def Best (R : Qualified → Key → Prop) : Option QualifiedFiles → Prop
  | none => ∀ cut key, ¬ R cut key
  | some q => (∃ key, R q.text key) ∧
      (∀ cut key, R cut key → byteLength cut.typed ≤ byteLength q.text.typed) ∧
      ∀ key, key ∈ q.keys ↔ R q.text key

/-- All that is read are parts of the text. -/
def Cuts (text : List Char) (R : Qualified → Key → Prop) : Prop :=
  ∀ cut key, R cut key → text = cut.typed ++ '.' :: cut.rest

variable {R S : Qualified → Key → Prop} {best : Option QualifiedFiles}

theorem Best.congr (h : Best R best) (hsame : ∀ cut key, R cut key ↔ S cut key) : Best S best := by
  have heq : R = S := by
    funext cut key
    exact propext (hsame cut key)
  rwa [← heq]

/-- The same qualifier, and the same records in any order. -/
def SameAnswer : Option QualifiedFiles → Option QualifiedFiles → Prop :=
  Option.Rel fun q r => q.text = r.text ∧ ∀ key, key ∈ q.keys ↔ key ∈ r.keys

/-- There is one best answer. -/
theorem Best.same {other : Option QualifiedFiles} (hcuts : Cuts text R) (hbest : Best R best)
    (hother : Best R other) : SameAnswer best other := by
  cases best with
  | none =>
    cases other with
    | none => exact .none
    | some r =>
      obtain ⟨⟨key, hkey⟩, -⟩ := hother
      exact absurd hkey (hbest r.text key)
  | some q =>
    obtain ⟨⟨key, hkey⟩, hlongest, hkeys⟩ := hbest
    cases other with
    | none => exact absurd hkey (hother q.text key)
    | some r =>
      obtain ⟨⟨known, hknown⟩, hlongest', hkeys'⟩ := hother
      -- neither qualifier is longer than the other
      have htext : q.text = r.text := by
        refine cut_eq_of_size (hcuts _ _ hkey) (hcuts _ _ hknown) ?_
        exact Nat.le_antisymm (hlongest' _ _ hkey) (hlongest _ _ hknown)
      refine .some ⟨htext, ?_⟩
      intro key
      rw [hkeys, hkeys', htext]

theorem best_fileQualifier? (cx : ScopeContext) (text : List Char) :
    Best (Reads cx text) (fileQualifier? cx text) := by
  cases hq : fileQualifier? cx text with
  | none => exact fileQualifier?_eq_none_iff.mp hq
  | some q => exact fileQualifier?_eq_some hq

/-- The readings with one more cut, which stands for the records with the keys. -/
def Adds (R : Qualified → Key → Prop) (cut : Qualified) (keys : List Key) (other : Qualified) (key : Key) :
    Prop := R other key ∨ other = cut ∧ key ∈ keys

/-- A cut that is longer than all before is the best. -/
theorem best_cut {keys : List Key} (hkeys : keys ≠ [])
    (hshorter : ∀ other key, R other key → byteLength other.typed < byteLength cut.typed) :
    Best (Adds R cut keys) (some ⟨cut, keys⟩) := by
  obtain ⟨first, hfirst⟩ := List.exists_mem_of_ne_nil keys hkeys
  refine ⟨⟨first, .inr ⟨rfl, hfirst⟩⟩, ?_, ?_⟩
  · rintro other key (hother | ⟨rfl, -⟩)
    · exact Nat.le_of_lt (hshorter other key hother)
    · exact Nat.le_refl _
  · intro key
    constructor
    · intro hkey
      exact .inr ⟨rfl, hkey⟩
    · rintro (hother | ⟨-, hkey⟩)
      · exact absurd (hshorter cut key hother) (Nat.lt_irrefl _)
      · exact hkey

/-- A cut that is shorter than the best changes nothing. -/
theorem Best.adds_shorter {keys : List Key} (h : Best R (some q)) (hlt : byteLength cut.typed < q.size) :
    Best (Adds R cut keys) (some q) := by
  obtain ⟨⟨first, hfirst⟩, hlongest, hkeys⟩ := h
  refine ⟨⟨first, .inl hfirst⟩, ?_, ?_⟩
  · rintro other key (hother | ⟨rfl, -⟩)
    · exact hlongest other key hother
    · exact Nat.le_of_lt hlt
  · intro key
    rw [hkeys]
    constructor
    · exact .inl
    · rintro (hother | ⟨rfl, -⟩)
      · exact hother
      · exact absurd hlt (Nat.lt_irrefl _)

/-- What the best cut stands for by another name is added. -/
theorem Best.adds_tied {keys : List Key} (h : Best R (some q)) :
    Best (Adds R q.text keys) (some { q with keys := distinct (q.keys ++ keys) }) := by
  obtain ⟨⟨first, hfirst⟩, hlongest, hkeys⟩ := h
  refine ⟨⟨first, .inl hfirst⟩, ?_, ?_⟩
  · rintro other key (hother | ⟨rfl, -⟩)
    · exact hlongest other key hother
    · exact Nat.le_refl _
  · intro key
    simp [Adds, mem_distinct, hkeys]

/-! ## One pass over the names -/

/-- What is kept after one more name is visited. A name that stands for nothing is passed over; of names
of one length all records are kept, and otherwise those of the longer one. -/
def consider (index : Index) (text : List Char) (best : Option QualifiedFiles)
    (pair : String × String) : Option QualifiedFiles :=
  match cutQualifier? pair.1 text with
  | none => best
  | some cut =>
    let keys := keysNamed index pair.2
    match best with
    | none => if keys.isEmpty then none else some ⟨cut, keys⟩
    | some kept =>
      if byteLength cut.typed < kept.size then some kept
      else if keys.isEmpty then some kept
      else if byteLength cut.typed = kept.size then some { kept with keys := distinct (kept.keys ++ keys) }
      else some ⟨cut, keys⟩

/-- The text is read as one of the names. -/
def ReadAs (index : Index) (text : List Char) (names : List (String × String)) (cut : Qualified)
    (key : Key) : Prop :=
  ∃ pair ∈ names, cutQualifier? pair.1 text = some cut ∧ key ∈ keysNamed index pair.2

theorem cuts_readAs {names : List (String × String)} : Cuts text (ReadAs index text names) := by
  rintro cut key ⟨pair, -, hcut, -⟩
  exact cutQualifier?_append hcut

/-- A name that stands for nothing adds no reading. -/
theorem consider_of_nil {pair : String × String} (hkeys : keysNamed index pair.2 = []) :
    consider index text best pair = best := by
  unfold consider
  cases cutQualifier? pair.1 text <;> cases best <;> simp [hkeys]

/-- After one more name the best of all names so far is kept. -/
theorem Best.consider {pair : String × String} (hcuts : Cuts text R) (h : Best R best) :
    Best (fun other key => R other key ∨ ReadAs index text [pair] other key)
      (consider index text best pair) := by
  have hpair (other : Qualified) (key : Key) : ReadAs index text [pair] other key ↔
      cutQualifier? pair.1 text = some other ∧ key ∈ keysNamed index pair.2 := by
    simp [ReadAs]
  simp only [hpair]
  by_cases hkeys : keysNamed index pair.2 = []
  · rw [consider_of_nil hkeys]
    exact h.congr fun other key => by simp [hkeys]
  · cases hcut : cutQualifier? pair.1 text with
    | none =>
      rw [Query.consider, hcut]
      exact h.congr fun other key => by simp
    | some cut =>
      have hadded (other : Qualified) (key : Key) : Adds R cut (keysNamed index pair.2) other key ↔
          R other key ∨ some cut = some other ∧ key ∈ keysNamed index pair.2 := by
        rw [Adds, Option.some.injEq, eq_comm]
      refine Best.congr ?_ hadded
      simp only [Query.consider, hcut, List.isEmpty_iff, hkeys, if_false]
      cases best with
      | none =>
        -- the first name that stands for a record
        exact best_cut hkeys fun other key hother => absurd hother (h other key)
      | some q =>
        dsimp only
        rcases Nat.lt_trichotomy (byteLength cut.typed) q.size with hlt | heq | hgt
        · rw [if_pos hlt]
          exact h.adds_shorter hlt
        · obtain ⟨first, hfirst⟩ : ∃ key, R q.text key := h.1
          obtain rfl := cut_eq_of_size (cutQualifier?_append hcut) (hcuts _ _ hfirst) heq
          rw [if_neg (Nat.not_lt_of_le (Nat.le_of_eq heq.symm)), if_pos heq]
          exact h.adds_tied
        · rw [if_neg (Nat.lt_asymm hgt), if_neg (Nat.ne_of_gt hgt)]
          obtain ⟨-, hlongest, -⟩ := h
          exact best_cut hkeys fun other key hother => Nat.lt_of_le_of_lt (hlongest other key hother) hgt

/-- A pass over the names ends with the best of them all. -/
theorem Best.foldl_consider (hcuts : Cuts text R) (h : Best R best) (names : List (String × String)) :
    Best (fun cut key => R cut key ∨ ReadAs index text names cut key)
      (names.foldl (Query.consider index text) best) := by
  induction names generalizing R best with
  | nil => exact h.congr fun cut key => by simp [ReadAs]
  | cons pair names ih =>
    have hboth : Cuts text fun cut key => R cut key ∨ ReadAs index text [pair] cut key := by
      rintro cut key (hreads | hreads)
      · exact hcuts cut key hreads
      · exact cuts_readAs cut key hreads
    rw [List.foldl_cons]
    refine (ih hboth (h.consider hcuts)).congr ?_
    intro cut key
    simp only [ReadAs, List.mem_cons, List.not_mem_nil, or_false, exists_eq_or_imp, exists_eq_left, or_assoc]

theorem best_foldl_consider (names : List (String × String)) :
    Best (ReadAs index text names) (names.foldl (consider index text) none) := by
  have hcuts : Cuts text fun _ _ => False := fun _ _ => False.elim
  have hnone : Best (fun _ _ => False) none := fun _ _ => id
  exact (hnone.foldl_consider hcuts names).congr fun cut key => by simp

/-- Nothing qualifies a text if no name that stands for a record is in front of a dot at its start.
Otherwise it is the longest of these names, with the rest of the text behind its dot and all the records
that a name of that length stands for. One pass over the names gives this answer in any order. -/
theorem longest_qualifier_wins (cx : ScopeContext) (text : List Char) :
    (fileQualifier? cx text = none ↔ ∀ typed f, ¬ Qualifies cx text typed f) ∧
    (∀ q, fileQualifier? cx text = some q →
      text = q.text.typed ++ '.' :: q.text.rest ∧
      (∃ f, Qualifies cx text q.text.typed f) ∧
      (∀ typed f, Qualifies cx text typed f → byteLength typed ≤ byteLength q.text.typed) ∧
      ∀ key, key ∈ q.keys ↔ ∃ typed f, Qualifies cx text typed f ∧
        byteLength typed = byteLength q.text.typed ∧ f.key = key) ∧
    ∀ names : List (String × String), names.Perm (qualifiers cx) →
      SameAnswer (names.foldl (consider cx.index text) none) (fileQualifier? cx text) := by
  refine ⟨?_, ?_, ?_⟩
  · rw [fileQualifier?_eq_none_iff]
    constructor
    · intro hnone typed f hqualifies
      obtain ⟨rest, hreads⟩ := hqualifies.exists_reads
      exact hnone _ _ hreads
    · intro hnone cut key hreads
      obtain ⟨-, f, hqualifies, -⟩ := reads_iff_qualifies.mp hreads
      exact hnone _ _ hqualifies
  · intro q hq
    obtain ⟨⟨known, hknown⟩, hlongest, hkeys⟩ := fileQualifier?_eq_some hq
    obtain ⟨htext, f, hqualifies, -⟩ := reads_iff_qualifies.mp hknown
    refine ⟨htext, ⟨f, hqualifies⟩, ?_, ?_⟩
    · intro typed g hother
      obtain ⟨rest, hreads⟩ := hother.exists_reads
      exact hlongest _ _ hreads
    · intro key
      rw [hkeys]
      constructor
      · intro hreads
        obtain ⟨-, g, hother, hkey⟩ := reads_iff_qualifies.mp hreads
        exact ⟨q.text.typed, g, hother, rfl, hkey⟩
      · rintro ⟨typed, g, hother, hsize, rfl⟩
        obtain ⟨rest, hreads⟩ := hother.exists_reads
        have hsame := hreads.cut_inj hknown hsize
        rwa [hsame] at hreads
  · intro names hperm
    refine Best.same cuts_readAs (best_foldl_consider names) ?_
    refine (best_fileQualifier? cx text).congr ?_
    intro cut key
    simp only [Reads, ReadAs, Prod.exists, hperm.mem_iff]

/-- A suite that imports a library under a local name with a dot, among records with and without one. -/
def dotted : List Index.Change :=
  [.addTable { libraries := [⟨"b", some "a.B"⟩, ⟨"c", some "A.b.C"⟩] } ⟨"/p/suite.robot"⟩,
    .addTable {} ⟨"/p/a.robot"⟩,
    .addTable {} ⟨"/p/a.b.robot"⟩,
    .addTable {} ⟨"/x/A.B.robot"⟩,
    .addTable {} ⟨"/p/b.robot"⟩]

/-- The longer qualifier `A.b.C` stands for no record, and three names are read as `a.b`. -/
theorem longest_qualifier_wins_dotted :
    let cx := contextOf (Index.after dotted) {} (some ⟨"/p/suite.robot"⟩)
    let text := "a.b.c.d".toList
    (∀ typed f, Qualifies cx text typed f → byteLength typed ≤ 3) ∧
      (∃ typed f, Qualifies cx text typed f ∧ byteLength typed = 3 ∧ f.key = ⟨"/p/b.robot"⟩) ∧
      SameAnswer ((qualifiers cx).reverse.foldl (consider cx.index text) none) (fileQualifier? cx text) := by
  intro cx text
  have hfound : (fileQualifier? cx text).map (fun q => (q.text.typed, q.keys)) =
      some ("a.b".toList, [⟨"/p/a.b.robot"⟩, ⟨"/x/a.b.robot"⟩, ⟨"/p/b.robot"⟩]) := by decide +kernel
  obtain ⟨q, hq, heq⟩ := Option.map_eq_some_iff.mp hfound
  obtain ⟨htyped, hkeys⟩ := Prod.mk.inj heq
  have hsize : byteLength q.text.typed = 3 := by
    rw [htyped]
    decide
  obtain ⟨-, -, hlongest, hall⟩ := (longest_qualifier_wins cx text).2.1 q hq
  rw [hsize] at hlongest hall
  refine ⟨hlongest, (hall _).mp ?_, ?_⟩
  · rw [hkeys]
    decide
  · exact (longest_qualifier_wins cx text).2.2 _ (List.reverse_perm _)

end KeywordIndex.Query
