import KeywordIndex.Proofs.Robot.Lines
import KeywordIndex.Robot.Source

namespace KeywordIndex

open Text

/-! # Sections and entries

A table file is a row of tables, and a keyword or test case table is a row of entries: a header and its
rows are one section whatever comes after (`sections_table`), and a name and its indented rows are one
entry (`entries_entry`). Reading drops rows and never reorders them (`rowsOf_sublist`), and an entry keeps
the name and the place of its row (`entries_names`). What the sections are does not depend on where the
rows stand (`outlineOf_unplaced`).
-/

namespace Robot

variable {header name row : Row} {body rest rs : List Row} {kind : SectionKind}

/-! ## Tables -/

/-- Rows before a header belong to no section. -/
theorem sections_body (h : ∀ row ∈ body, row.header? = none) :
    sections (body ++ rest) = sections rest := by
  induction body with
  | nil => rfl
  | cons row body ih =>
    rw [List.cons_append, sections, h row List.mem_cons_self]
    exact ih fun other hother => h other (List.mem_cons_of_mem _ hother)

/-- A header and the rows up to the next header are a section. -/
theorem sections_table (hheader : header.header? = some kind) (hbody : ∀ row ∈ body, row.header? = none)
    (hrest : ∀ row, rest.head? = some row → row.header? ≠ none) :
    sections (header :: (body ++ rest)) = ⟨kind, body⟩ :: sections rest := by
  have hrun : (body ++ rest).takeWhile (·.header?.isNone) = body := by
    apply takeWhile_run
    · intro row hrow
      simp [hbody row hrow]
    · intro row hrow
      have := hrest row hrow
      simp [Option.isNone_eq_false_iff, Option.isSome_iff_ne_none, this]
  rw [sections, hheader]
  simp only
  rw [hrun, sections_body hbody]

theorem rowsOf_cons (s : Section) (more : List Section) :
    rowsOf kind (s :: more) = (if s.kind = kind then s.rows else []) ++ rowsOf kind more := by
  by_cases h : s.kind = kind <;> simp [rowsOf, h]

/-- The rows up to the next header, and the rows of the sections after them, keep their order. -/
theorem rowsOf_sections_sublist (kind : SectionKind) (rs : List Row) :
    (rowsOf kind (sections rs)).Sublist (rs.dropWhile (·.header?.isNone)) := by
  induction rs with
  | nil => exact .refl []
  | cons row rest ih =>
    rw [sections]
    cases hheader : row.header? with
    | none =>
      rw [List.dropWhile_cons_of_pos (by simp [hheader])]
      exact ih
    | some opened =>
      -- the section takes the rows up to the next header, the later ones the rows from there
      rw [List.dropWhile_cons_of_neg (by simp [hheader]), rowsOf_cons]
      have hfirst : (if opened = kind then rest.takeWhile (·.header?.isNone) else []).Sublist
          (rest.takeWhile (·.header?.isNone)) := by
        split
        · exact .refl _
        · exact List.nil_sublist _
      have hboth := hfirst.append ih
      rw [List.takeWhile_append_dropWhile] at hboth
      exact hboth.cons row

/-- The rows of the sections of a kind are rows of the file, in its order. -/
theorem rowsOf_sublist (kind : SectionKind) (rs : List Row) : (rowsOf kind (sections rs)).Sublist rs :=
  (rowsOf_sections_sublist kind rs).trans (List.dropWhile_sublist _)

/-! ## Entries -/

/-- A name and the indented rows up to the next name are an entry. -/
theorem entries_entry (hname : name.indented = false) (hbody : ∀ row ∈ body, row.indented = true)
    (hrest : ∀ row, rest.head? = some row → row.indented = false) :
    entries (name :: (body ++ rest)) = Entry.ofRow name body :: entries rest := by
  have hskip (body : List Row) (hbody : ∀ row ∈ body, row.indented = true) :
      entries (body ++ rest) = entries rest := by
    induction body with
    | nil => rfl
    | cons row body ih =>
      rw [List.cons_append, entries, if_pos (hbody row List.mem_cons_self)]
      exact ih fun other hother => hbody other (List.mem_cons_of_mem _ hother)
  rw [entries, if_neg (by simp [hname]), takeWhile_run hbody hrest, hskip body hbody]

/-- Names with their indented rows are read as so many entries. -/
theorem entries_flatMap {α : Type} (name : α → Row) (body : α → List Row)
    (hname : ∀ a, (name a).indented = false) (hbody : ∀ a, ∀ row ∈ body a, row.indented = true)
    (all : List α) : entries (all.flatMap fun a => name a :: body a) =
      all.map fun a => Entry.ofRow (name a) (body a) := by
  induction all with
  | nil => rfl
  | cons a all ih =>
    have hnext : ∀ row, (all.flatMap fun a => name a :: body a).head? = some row →
        row.indented = false := by
      cases all with
      | nil => simp
      | cons b all =>
        intro row hrow
        obtain rfl := Option.some.inj hrow
        exact hname b
    rw [List.flatMap_cons, List.cons_append, entries_entry (hname a) (hbody a) hnext, ih, List.map_cons]

/-- An entry has the name and the place of its row, and every row that is not indented names one. -/
theorem entries_names (rs : List Row) :
    (entries rs).map (fun e => (e.name, some e.position)) =
      (rs.filter (!·.indented)).map fun row => (row.first, some ⟨row.number, row.column⟩) := by
  induction rs with
  | nil => rfl
  | cons row rest ih =>
    rw [entries]
    cases hindented : row.indented with
    | true => simpa [hindented] using ih
    | false => simpa [hindented, Entry.ofRow] using ih

/-! ## Places do not matter -/

/-- The row without its place. -/
def Row.unplaced (row : Row) : Row := { row with line := 0, start := 0 }

/-- The entry without its place. -/
def Entry.unplaced (e : Entry) : Entry := { e with position := ⟨0, 0⟩ }

theorem sections_unplaced (rs : List Row) : sections (rs.map Row.unplaced) =
    (sections rs).map fun s => { s with rows := s.rows.map Row.unplaced } := by
  induction rs with
  | nil => rfl
  | cons row rest ih =>
    have hheader : row.unplaced.header? = row.header? := rfl
    rw [List.map_cons, sections, sections, hheader, ih]
    cases row.header? with
    | none => rfl
    | some kind =>
      simp only [List.map_cons, List.takeWhile_map]
      rfl

theorem rowsOf_unplaced (kind : SectionKind) (rs : List Row) :
    rowsOf kind (sections (rs.map Row.unplaced)) = (rowsOf kind (sections rs)).map Row.unplaced := by
  rw [sections_unplaced]
  simp [rowsOf, List.filter_map, List.map_flatMap, List.flatMap_map, Function.comp_def]

theorem entries_unplaced (rs : List Row) :
    entries (rs.map Row.unplaced) = (entries rs).map Entry.unplaced := by
  induction rs with
  | nil => rfl
  | cons row rest ih =>
    have hindented : row.unplaced.indented = row.indented := rfl
    rw [List.map_cons, entries, entries, hindented, ih]
    split
    · rfl
    · have hname : Entry.ofRow row.unplaced ((rest.map Row.unplaced).takeWhile (·.indented)) =
          (Entry.ofRow row (rest.takeWhile (·.indented))).unplaced := by
        rw [List.takeWhile_map]
        simp only [Entry.ofRow, Entry.unplaced, List.map_map]
        rfl
      rw [hname, List.map_cons]

end Robot

/-- The declaration without its place. -/
def Declaration.unplaced (d : Declaration) : Declaration := { d with position := none }

/-- The outline without the places of its declarations. -/
def Outline.unplaced (o : Outline) : Outline :=
  { o with
    keywords := o.keywords.map Declaration.unplaced
    testCases := o.testCases.map Declaration.unplaced }

namespace Robot

/-- Where the rows stand shows in the places of the declarations only. -/
theorem outlineOf_unplaced (rs : List Row) :
    (outlineOf (sections (rs.map Row.unplaced))).unplaced = (outlineOf (sections rs)).unplaced := by
  simp only [Outline.unplaced, outlineOf, rowsOf_unplaced, entries_unplaced, List.map_map,
    List.filterMap_map]
  rfl

end Robot

end KeywordIndex
