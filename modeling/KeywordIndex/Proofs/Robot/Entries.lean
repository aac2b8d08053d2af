import KeywordIndex.Proofs.Robot.Grammar
import Mathlib.Data.List.ModifyLast

namespace KeywordIndex.Robot

open Text

/-! # Entries across tables

All tables of a kind are read as if they were one. So the indented rows with which a table begins are taken
by the last entry of a table before it, if there is one (`entries_tables`). Its declaration is not what
reading its table alone would give only if these rows add to its documentation or to its arguments
(`parse_by_table_iff`).
-/

variable {row : Row} {a b rs : List Row} {e : Entry} {setting : String} {body more : List (List String)}

/-! ## Rows that go on with an entry -/

/-- The entry with further rows at its end. -/
def Entry.extend (e : Entry) (rs : List Row) : Entry := { e with body := e.body ++ rs.map (·.cells) }

theorem ofRow_append (row : Row) (a b : List Row) :
    Entry.ofRow row (a ++ b) = (Entry.ofRow row a).extend b := by
  simp [Entry.ofRow, Entry.extend]

theorem entries_eq_nil_iff : entries rs = [] ↔ ∀ row ∈ rs, row.indented = true := by
  induction rs with
  | nil => simp [entries]
  | cons row rest ih =>
    rw [entries, List.forall_mem_cons]
    cases hindented : row.indented with
    | true => simpa using ih
    | false => simp

/-- The last entry takes the indented rows that follow. -/
theorem entries_append (a b : List Row) :
    entries (a ++ b) = (entries a).modifyLast (·.extend (b.takeWhile (·.indented))) ++ entries b := by
  induction a with
  | nil => rfl
  | cons row rest ih =>
    rw [List.cons_append, entries, entries, ih]
    cases hindented : row.indented with
    | true => rfl
    | false =>
      rw [if_neg Bool.false_ne_true, if_neg Bool.false_ne_true]
      by_cases hlast : entries rest = []
      · -- the rows of the entry go on into `b`
        have hrest := entries_eq_nil_iff.mp hlast
        have hall : rest.takeWhile (·.indented) = rest := List.takeWhile_eq_self_iff.mpr hrest
        rw [List.takeWhile_append_of_pos hrest, ofRow_append, hlast, hall]
        rfl
      · have hstop : ¬ ∀ row ∈ rest, row.indented = true := fun h => hlast (entries_eq_nil_iff.mpr h)
        have hrows : (rest ++ b).takeWhile (·.indented) = rest.takeWhile (·.indented) := by
          rw [List.takeWhile_append, if_neg fun hlength => hstop ?_]
          have hall := (List.takeWhile_prefix (l := rest) (·.indented)).eq_of_length hlength
          exact List.takeWhile_eq_self_iff.mp hall
        have hkeep (x : Entry) (f : Entry → Entry) :
            (x :: entries rest).modifyLast f = x :: (entries rest).modifyLast f :=
          List.modifyLast_append_of_right_ne_nil f [x] _ hlast
        rw [hrows, hkeep, List.cons_append]

/-! ## Tables of one kind -/

/-- The indented rows with which the tables begin, up to the first name. -/
def strays (tables : List Section) : List Row := (tables.flatMap (·.rows)).takeWhile (·.indented)

/-- The entries of each table, the last with the rows that follow its table. -/
def entriesInTurn : List Section → List Entry
  | [] => []
  | table :: after =>
    (entries table.rows).modifyLast (·.extend (strays after)) ++ entriesInTurn after

/-- Tables that are read as one have the entries of each, but for the strays. -/
theorem entries_tables (tables : List Section) :
    entries (tables.flatMap (·.rows)) = entriesInTurn tables := by
  induction tables with
  | nil => rfl
  | cons table after ih => rw [List.flatMap_cons, entries_append, entriesInTurn, ih, strays]

/-- The property holds of the last entry of each table with the strays of the tables after it. -/
def AtTableEnds (p : Entry → List Row → Prop) (tables : List Section) : Prop :=
  ∀ table after, table :: after <:+ tables → ∀ e, (entries table.rows).getLast? = some e →
    p e (strays after)

theorem atTableEnds_cons_iff {p : Entry → List Row → Prop} {table : Section} {after : List Section} :
    AtTableEnds p (table :: after) ↔
      (∀ e, (entries table.rows).getLast? = some e → p e (strays after)) ∧ AtTableEnds p after := by
  constructor
  · intro h
    exact ⟨h table after List.suffix_rfl,
      fun other later hsuffix => h other later (hsuffix.trans (List.suffix_cons _ _))⟩
  · rintro ⟨hlast, hafter⟩ other later hsuffix
    rcases List.suffix_cons_iff.mp hsuffix with heq | hsuffix
    · obtain ⟨rfl, rfl⟩ := List.cons.inj heq
      exact hlast
    · exact hafter other later hsuffix

/-- A change of the last element shows exactly if it shows in that element. -/
theorem map_modifyLast_eq_iff {α β : Type} {f : α → α} {g : α → β} {l : List α} :
    (l.modifyLast f).map g = l.map g ↔ ∀ x, l.getLast? = some x → g (f x) = g x := by
  induction l using List.reverseRecOn with
  | nil => simp [List.modifyLast, List.modifyLast.go]
  | append_singleton l x => simp [List.modifyLast_concat]

theorem length_modifyLast {α : Type} (f : α → α) (l : List α) : (l.modifyLast f).length = l.length := by
  induction l using List.reverseRecOn with
  | nil => rfl
  | append_singleton l x => simp [List.modifyLast_concat]

/-- The tables are read as each on its own exactly if no last entry shows what it takes. -/
theorem map_entries_tables_iff {α : Type} (declare : Entry → α) (tables : List Section) :
    (entries (tables.flatMap (·.rows))).map declare =
        tables.flatMap (fun table => (entries table.rows).map declare) ↔
      AtTableEnds (fun e rs => declare (e.extend rs) = declare e) tables := by
  rw [entries_tables]
  induction tables with
  | nil => simp [entriesInTurn, AtTableEnds]
  | cons table after ih =>
    rw [atTableEnds_cons_iff, ← ih, ← map_modifyLast_eq_iff, entriesInTurn, List.map_append,
      List.flatMap_cons]
    constructor
    · intro h
      exact List.append_inj h (by rw [List.length_map, List.length_map, length_modifyLast])
    · rintro ⟨hlast, hafter⟩
      rw [hlast, hafter]

/-! ## What rows add to a setting -/

/-- Whether the body ends in the first row of the setting and the rows that continue it. -/
def endsIn (setting : String) : List (List String) → Bool
  | [] => false
  | row :: rest =>
    if row.head?.any (asciiEqual · setting) then rest.all (·.head? == some "...")
    else endsIn setting rest

/-- The cells that rows after the body add to the setting: they begin it, or go on with it. -/
def cellsAdded (setting : String) (body more : List (List String)) : List String :=
  match settingCells setting body with
  | none => (settingCells setting more).getD []
  | some _ => if endsIn setting body then continuation more else []

theorem continuation_append_rows (body more : List (List String)) : continuation (body ++ more) =
    continuation body ++ if body.all (·.head? == some "...") then continuation more else [] := by
  induction body with
  | nil => rfl
  | cons row rest ih =>
    rw [List.cons_append]
    match row with
    | [] => rfl
    | first :: cells =>
      by_cases hfirst : first = "..."
      · subst hfirst
        rw [continuation, continuation, ih, List.append_assoc]
        rfl
      · have hstop (rows : List (List String)) : continuation ((first :: cells) :: rows) = [] := by
          rw [continuation]
          rintro _ heq
          exact hfirst (List.cons.inj heq).1
        simp [hstop, hfirst]

theorem settingCells_append (setting : String) (body more : List (List String)) :
    (settingCells setting (body ++ more)).getD [] =
      (settingCells setting body).getD [] ++ cellsAdded setting body more := by
  unfold cellsAdded
  induction body with
  | nil => rfl
  | cons row rest ih =>
    match row with
    | [] => exact ih
    | first :: cells =>
      rw [List.cons_append, settingCells, settingCells, endsIn]
      by_cases hfirst : asciiEqual first setting = true
      · simp [hfirst, continuation_append_rows]
      · simpa [hfirst] using ih

theorem mem_continuation {cell : String} (h : cell ∈ continuation more) :
    ∃ cells ∈ more, cell ∈ cells := by
  fun_induction continuation more with
  | case1 => cases h
  | case2 rest cells ih =>
    rcases List.mem_append.mp h with h | h
    · exact ⟨"..." :: cells, List.mem_cons_self, List.mem_cons_of_mem _ h⟩
    · obtain ⟨others, hothers, hcell⟩ := ih h
      exact ⟨others, List.mem_cons_of_mem _ hothers, hcell⟩
  | case3 => cases h

theorem mem_settingCells {cell : String} (h : cell ∈ (settingCells setting more).getD []) :
    ∃ cells ∈ more, cell ∈ cells := by
  fun_induction settingCells setting more with
  | case1 => cases h
  | case2 rest ih =>
    obtain ⟨others, hothers, hcell⟩ := ih h
    exact ⟨others, List.mem_cons_of_mem _ hothers, hcell⟩
  | case3 rest first cells hfirst =>
    rcases List.mem_append.mp h with h | h
    · exact ⟨first :: cells, List.mem_cons_self, List.mem_cons_of_mem _ h⟩
    · obtain ⟨others, hothers, hcell⟩ := mem_continuation h
      exact ⟨others, List.mem_cons_of_mem _ hothers, hcell⟩
  | case4 rest first cells hfirst ih =>
    obtain ⟨others, hothers, hcell⟩ := ih h
    exact ⟨others, List.mem_cons_of_mem _ hothers, hcell⟩

/-- What is added are cells of the rows. -/
theorem mem_cellsAdded {cell : String} (h : cell ∈ cellsAdded setting body more) :
    ∃ cells ∈ more, cell ∈ cells := by
  unfold cellsAdded at h
  split at h
  · exact mem_settingCells h
  · split at h
    · exact mem_continuation h
    · cases h

namespace Entry

/-- The cells that rows after the entry add to its setting. -/
def gains (e : Entry) (setting : String) (rs : List Row) : List String :=
  cellsAdded setting e.body (rs.map (·.cells))

theorem documentation_eq (e : Entry) :
    e.documentation = " ".intercalate ((settingCells "[documentation]" e.body).getD []) := by
  unfold documentation
  cases settingCells "[documentation]" e.body <;> rfl

theorem arguments_eq (e : Entry) :
    e.arguments = ((settingCells "[arguments]" e.body).getD []).filterMap argumentOfCell := by
  unfold arguments
  cases settingCells "[arguments]" e.body <;> rfl

/-- Pieces that are not empty show in the text that they are joined to. -/
theorem intercalate_append_eq_iff {pieces others : List String} (h : "" ∉ others) :
    " ".intercalate (pieces ++ others) = " ".intercalate pieces ↔ others = [] := by
  constructor
  · intro heq
    by_contra hne
    have hlength := congrArg String.length heq
    by_cases hpieces : pieces = []
    · obtain ⟨first, rest, rfl⟩ := List.exists_cons_of_ne_nil hne
      have hfirst : first ≠ "" := fun hempty => h (hempty ▸ List.mem_cons_self)
      have hjoined : " ".intercalate (first :: rest) = first ++ " ".intercalate ("" :: rest) := by
        rw [← String.intercalate_cons_append, String.append_empty]
      rw [hpieces, List.nil_append, hjoined, String.length_append, String.intercalate_nil,
        String.length_empty] at hlength
      exact hfirst (String.length_eq_zero_iff.mp (Nat.eq_zero_of_add_eq_zero_right hlength))
    · have hspace : " ".length = 1 := rfl
      rw [String.intercalate_append_of_ne_nil hpieces hne, String.length_append, String.length_append,
        hspace] at hlength
      omega
  · rintro rfl
    rw [List.append_nil]

variable {rs : List Row}

theorem documentation_extend_iff (e : Entry) (h : ∀ row ∈ rs, "" ∉ row.cells) :
    (e.extend rs).documentation = e.documentation ↔ e.gains "[documentation]" rs = [] := by
  have hgains : "" ∉ e.gains "[documentation]" rs := by
    intro hempty
    obtain ⟨cells, hcells, hmem⟩ := mem_cellsAdded hempty
    obtain ⟨row, hrow, rfl⟩ := List.mem_map.mp hcells
    exact h row hrow hmem
  rw [documentation_eq, documentation_eq, extend, settingCells_append]
  exact intercalate_append_eq_iff hgains

theorem arguments_extend_iff (e : Entry) (rs : List Row) :
    (e.extend rs).arguments = e.arguments ↔
      (e.gains "[arguments]" rs).filterMap argumentOfCell = [] := by
  rw [arguments_eq, arguments_eq, extend, settingCells_append, List.filterMap_append]
  exact List.append_right_eq_self

theorem keyword_extend_iff (e : Entry) (h : ∀ row ∈ rs, "" ∉ row.cells) :
    (e.extend rs).keyword = e.keyword ↔ e.gains "[documentation]" rs = [] ∧
      (e.gains "[arguments]" rs).filterMap argumentOfCell = [] := by
  rw [← documentation_extend_iff e h, ← arguments_extend_iff]
  simp [keyword, extend]

theorem testCase_extend_iff (e : Entry) (h : ∀ row ∈ rs, "" ∉ row.cells) :
    (e.extend rs).testCase = e.testCase ↔ e.gains "[documentation]" rs = [] := by
  rw [← documentation_extend_iff e h]
  simp [testCase, extend]

end Entry

/-! ## Tables of a text -/

/-- The tables of a kind, in their order. -/
def tablesOf (kind : SectionKind) (text : List Char) : List Section :=
  (sections (rows text)).filter (·.kind == kind)

theorem mem_rows_of_strays {kind : SectionKind} {text : List Char} {table : Section}
    {after : List Section} (h : table :: after <:+ tablesOf kind text) (hrow : row ∈ strays after) :
    row ∈ rows text := by
  obtain ⟨other, hother, hmem⟩ := List.mem_flatMap.mp ((List.takeWhile_prefix _).subset hrow)
  have htable : other ∈ tablesOf kind text := h.subset (List.mem_cons_of_mem _ hother)
  exact (rowsOf_sublist kind (rows text)).subset (List.mem_flatMap.mpr ⟨other, htable, hmem⟩)

/-- The declarations of a kind of table are those of each table on its own exactly if no last entry shows the
strays that it takes. -/
theorem declared_by_table_iff (kind : SectionKind) (text : List Char) (declare : Entry → Declaration) :
    (entries (rowsOf kind (sections (rows text)))).map declare =
        (tablesOf kind text).flatMap (fun table => (entries (rowsOf kind [table])).map declare) ↔
      AtTableEnds (fun e rs => declare (e.extend rs) = declare e) (tablesOf kind text) := by
  have hown : ∀ table ∈ tablesOf kind text, rowsOf kind [table] = table.rows := by
    intro table htable
    have hkind := (List.mem_filter.mp htable).2
    simp [rowsOf, hkind]
  rw [← map_entries_tables_iff, List.flatMap_congr fun table htable => by rw [hown table htable]]
  rfl

/-- Reading a text gives what each table on its own gives exactly if no entry at the end of a table gains from
the strays of later tables. -/
theorem parse_by_table_iff (text : List Char) :
    ((parse text).keywords =
        (tablesOf .keywords text).flatMap (fun table => (outlineOf [table]).keywords) ↔
      AtTableEnds (fun e rs => e.gains "[documentation]" rs = [] ∧
        (e.gains "[arguments]" rs).filterMap argumentOfCell = []) (tablesOf .keywords text)) ∧
    ((parse text).testCases =
        (tablesOf .testCases text).flatMap (fun table => (outlineOf [table]).testCases) ↔
      AtTableEnds (fun e rs => e.gains "[documentation]" rs = []) (tablesOf .testCases text)) := by
  constructor
  · refine (declared_by_table_iff .keywords text Entry.keyword).trans ?_
    refine forall₃_congr fun table after hsuffix => forall₂_congr fun e _ => ?_
    exact e.keyword_extend_iff fun row hrow => empty_notMem_cells (mem_rows_of_strays hsuffix hrow)
  · refine (declared_by_table_iff .testCases text Entry.testCase).trans ?_
    refine forall₃_congr fun table after hsuffix => forall₂_congr fun e _ => ?_
    exact e.testCase_extend_iff fun row hrow => empty_notMem_cells (mem_rows_of_strays hsuffix hrow)

/-- A table with a name, and one that begins with a documentation. -/
def strayText : List Char :=
  "*** Keywords ***\nA\n*** Settings ***\n*** Keywords ***\n    [Documentation]    Stray\n".toList

theorem documentation_of_next_table :
    (parse strayText).keywords = [⟨"A", "Stray", [], some ⟨1, 0⟩⟩] ∧
      (tablesOf .keywords strayText).flatMap (fun table => (outlineOf [table]).keywords) =
        [⟨"A", "", [], some ⟨1, 0⟩⟩] := by
  decide +kernel

end KeywordIndex.Robot
