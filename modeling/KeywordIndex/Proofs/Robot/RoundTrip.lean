import KeywordIndex.Proofs.Robot.Writing

namespace KeywordIndex.Robot

open Text

/-! # Tables as they are written

Settings, keyword and test case tables may be written with any separators and line ends, the cells of a
documentation and of the arguments spread over any continuation rows. Reading gives back what was
written (`parse_write`).
-/

/-! ## What is written -/

/-- What announces the name that a library goes by. -/
inductive AliasMark where
  | withName
  /-- The short form of the mark. -/
  | short

def AliasMark.cell : AliasMark → Cell
  | withName => ⟨"WITH NAME", by decide +kernel⟩
  | short => ⟨"AS", by decide +kernel⟩

/-- An import in the settings table. -/
inductive SettingText where
  | library (name : Cell) (localName : Option (AliasMark × Cell))
  | resource (path : Cell)

/-- A test case with the rows of its documentation. -/
structure CaseText where
  name : Cell
  not_header : SectionKind.ofHeader? name.text = none
  documentation : List (List Cell)

/-- An argument as it is declared. -/
def argumentText (a : Argument) : String :=
  String.ofList ('$' :: '\x7b' :: (a.name.toList ++ '\x7d' ::
    match a.defaultValue with
    | some value => '=' :: value.toList
    | none => []))

/-- An argument whose declaration may stand in a cell. -/
structure ArgumentText where
  argument : Argument
  nonempty : argument.name ≠ ""
  trimmed : trim argument.name.toList = argument.name.toList
  closed : '\x7d' ∉ argument.name.toList
  isCell : IsCell (argumentText argument).toList

/-- A keyword with the rows of its documentation and of its arguments. -/
structure KeywordText extends CaseText where
  arguments : List (List ArgumentText)

/-- A table with what stands in it. -/
inductive Table where
  | settings (all : List SettingText)
  | keywords (all : List KeywordText)
  | testCases (all : List CaseText)

/-! ## The rows -/

/-- The row of an import. -/
def SettingText.row : SettingText → CellRow
  | library name none => ⟨false, ⟨"Library", by decide +kernel⟩, [name]⟩
  | library name (some (mark, localName)) =>
    ⟨false, ⟨"Library", by decide +kernel⟩, [name, mark.cell, localName]⟩
  | resource path => ⟨false, ⟨"Resource", by decide +kernel⟩, [path]⟩

def documentationCell : Cell := ⟨"[Documentation]", by decide +kernel⟩

def argumentsCell : Cell := ⟨"[Arguments]", by decide +kernel⟩

/-- A setting of an entry: its first row, and the rows that continue it. -/
def settingRows (setting : Cell) : List (List Cell) → List CellRow
  | [] => []
  | cells :: more =>
    ⟨true, setting, cells⟩ :: more.map fun cells => ⟨true, ⟨"...", by decide +kernel⟩, cells⟩

def documentationRows (documentation : List (List Cell)) : List CellRow :=
  settingRows documentationCell documentation

def ArgumentText.cell (a : ArgumentText) : Cell := ⟨argumentText a.argument, a.isCell⟩

def argumentRows (arguments : List (List ArgumentText)) : List CellRow :=
  settingRows argumentsCell (arguments.map (·.map ArgumentText.cell))

/-- The row that names a test case or a keyword. -/
def CaseText.nameRow (t : CaseText) : CellRow := ⟨false, t.name, []⟩

/-- The rows after the name. -/
def CaseText.body (t : CaseText) : List CellRow := documentationRows t.documentation

/-- The rows after the name. -/
def KeywordText.body (t : KeywordText) : List CellRow :=
  documentationRows t.documentation ++ argumentRows t.arguments

namespace Table

/-- What the table is read as. -/
def kind : Table → SectionKind
  | settings _ => .settings
  | keywords _ => .keywords
  | testCases _ => .testCases

def header : Table → Cell
  | settings _ => ⟨"*** Settings ***", by decide +kernel⟩
  | keywords _ => ⟨"*** Keywords ***", by decide +kernel⟩
  | testCases _ => ⟨"*** Test Cases ***", by decide +kernel⟩

def settingTexts : Table → List SettingText
  | settings all => all
  | _ => []

def keywordTexts : Table → List KeywordText
  | keywords all => all
  | _ => []

def caseTexts : Table → List CaseText
  | testCases all => all
  | _ => []

/-- The rows after the header. -/
def body : Table → List CellRow
  | settings all => all.map SettingText.row
  | keywords all => all.flatMap fun t => t.nameRow :: t.body
  | testCases all => all.flatMap fun t => t.nameRow :: t.body

/-- The header and what stands under it. -/
def rows (t : Table) : List CellRow := ⟨false, t.header, []⟩ :: t.body

end Table

/-- The text of some tables. -/
def write (layout : Layout) (tables : List Table) : List Char :=
  writeRows layout 0 (tables.flatMap Table.rows)

/-! ## What is declared -/

/-- The import, if it is of a library. -/
def SettingText.library? : SettingText → Option LibraryImport
  | library name localName => some ⟨name.text, localName.map fun l => l.2.text⟩
  | resource _ => none

/-- The import, if it is of a resource. -/
def SettingText.resource? : SettingText → Option String
  | library _ _ => none
  | resource path => some path.text

/-- The test case without a place; the cells of its documentation are joined by single spaces. -/
def CaseText.declaration (t : CaseText) : Declaration where
  name := t.name.text
  documentation := " ".intercalate (t.documentation.flatten.map Cell.text)
  arguments := []
  position := none

def KeywordText.declaration (t : KeywordText) : Declaration :=
  { t.toCaseText.declaration with arguments := t.arguments.flatten.map ArgumentText.argument }

/-- What the tables declare, in their order. -/
def outlineOfTables (tables : List Table) : Outline where
  keywords := (tables.flatMap Table.keywordTexts).map KeywordText.declaration
  testCases := (tables.flatMap Table.caseTexts).map CaseText.declaration
  libraries := (tables.flatMap Table.settingTexts).filterMap SettingText.library?
  resources := (tables.flatMap Table.settingTexts).filterMap SettingText.resource?

/-! ## Reading the settings of an entry -/

variable {name : String} {setting : Cell}

/-- The cells of rows as they are read. -/
def readCells (rs : List CellRow) : List (List String) := rs.map fun r => r.row.cells

@[simp] theorem readCells_append (a b : List CellRow) : readCells (a ++ b) = readCells a ++ readCells b :=
  List.map_append

theorem readCells_settingRows (setting : Cell) (cells : List Cell) (more : List (List Cell)) :
    readCells (settingRows setting (cells :: more)) =
      (setting.text :: cells.map Cell.text) :: more.map fun cells => "..." :: cells.map Cell.text := by
  simp [readCells, settingRows, CellRow.row]

theorem continuation_append (more : List (List Cell)) (rest : List (List String)) :
    continuation ((more.map fun cells => "..." :: cells.map Cell.text) ++ rest) =
      more.flatten.map Cell.text ++ continuation rest := by
  induction more with
  | nil => rfl
  | cons cells more ih => simp [continuation, ih]

/-- A setting is read with the rows that continue it. -/
theorem settingCells_found (hsetting : asciiEqual setting.text name = true) {written : List (List Cell)}
    (hne : written ≠ []) {rest : List (List String)} (hrest : continuation rest = []) :
    settingCells name (readCells (settingRows setting written) ++ rest) =
      some (written.flatten.map Cell.text) := by
  cases written with
  | nil => exact absurd rfl hne
  | cons cells more =>
    rw [readCells_settingRows, List.cons_append, settingCells, if_pos hsetting, continuation_append, hrest]
    simp

/-- Another setting and the rows that continue it are passed over. -/
theorem settingCells_other (hsetting : asciiEqual setting.text name = false)
    (hdots : asciiEqual "..." name = false) (written : List (List Cell)) (rest : List (List String)) :
    settingCells name (readCells (settingRows setting written) ++ rest) = settingCells name rest := by
  have hmore (more : List (List Cell)) :
      settingCells name ((more.map fun cells => "..." :: cells.map Cell.text) ++ rest) =
        settingCells name rest := by
    induction more with
    | nil => rfl
    | cons cells more ih => simp [settingCells, hdots, ih]
  cases written with
  | nil => rfl
  | cons cells more =>
    rw [readCells_settingRows, List.cons_append, settingCells, if_neg (by simp [hsetting]), hmore]

theorem documentation_of_body {e : Entry} {documentation : List (List Cell)} {rest : List (List String)}
    (hbody : e.body = readCells (documentationRows documentation) ++ rest)
    (hrest : continuation rest = []) (hnone : settingCells "[documentation]" rest = none) :
    e.documentation = " ".intercalate (documentation.flatten.map Cell.text) := by
  unfold Entry.documentation
  rw [hbody]
  -- without cells there is no setting at all
  cases documentation with
  | nil =>
    simp [documentationRows, settingRows, readCells, hnone]
  | cons cells more =>
    rw [documentationRows, settingCells_found (by decide +kernel) (List.cons_ne_nil _ _) hrest]

/-- The text before the first closing brace is cut off. -/
theorem cutAt?_of_not_mem {c : Char} {before : List Char} (h : c ∉ before) (rest : List Char) :
    cutAt? [c] (before ++ c :: rest) = some (before, rest) := by
  induction before with
  | nil => simp [cutAt?, after?]
  | cons d before ih =>
    have hd : c ≠ d := fun heq => h (heq ▸ List.mem_cons_self)
    have hbefore : c ∉ before := fun hmem => h (List.mem_cons_of_mem d hmem)
    simp [cutAt?, after?, hd, ih hbefore]

/-- A declared argument is read with its name and its default. -/
theorem argumentOfCell_cell (a : ArgumentText) : argumentOfCell a.cell.text = some a.argument := by
  have htext : a.cell.text.toList = '$' :: '\x7b' :: (a.argument.name.toList ++ '\x7d' ::
      match a.argument.defaultValue with
      | some value => '=' :: value.toList
      | none => []) := String.toList_ofList
  have hname : a.argument.name.toList ≠ [] := by
    intro hnil
    exact a.nonempty (String.toList_eq_nil_iff.mp hnil)
  unfold argumentOfCell
  rw [htext]
  simp only [true_or, if_true, cutAt?_of_not_mem a.closed, a.trimmed]
  rw [if_neg (by simpa using hname)]
  -- what follows the brace decides whether there is a default
  obtain ⟨⟨name, defaultValue⟩, -, -, -, -⟩ := a
  cases defaultValue with
  | none => simp
  | some value => simp

theorem continuation_argumentRows (arguments : List (List ArgumentText)) :
    continuation (readCells (argumentRows arguments)) = [] := by
  cases arguments with
  | nil => rfl
  | cons cells more =>
    rw [argumentRows, List.map_cons, readCells_settingRows]
    simp [continuation, argumentsCell]

theorem arguments_of_body {e : Entry} {documentation : List (List Cell)}
    {arguments : List (List ArgumentText)}
    (hbody : e.body = readCells (documentationRows documentation) ++ readCells (argumentRows arguments)) :
    e.arguments = arguments.flatten.map ArgumentText.argument := by
  have hdocumentation : asciiEqual documentationCell.text "[arguments]" = false := by decide +kernel
  have harguments : asciiEqual argumentsCell.text "[arguments]" = true := by decide +kernel
  unfold Entry.arguments
  rw [hbody, documentationRows, settingCells_other hdocumentation (by decide +kernel)]
  cases arguments with
  | nil => rfl
  | cons cells more =>
    have hfound := settingCells_found harguments
      (List.cons_ne_nil (cells.map ArgumentText.cell) (more.map (·.map ArgumentText.cell))) continuation.eq_1
    rw [List.append_nil] at hfound
    rw [argumentRows, List.map_cons, hfound]
    have hcells : (cells.map ArgumentText.cell :: more.map (·.map ArgumentText.cell)).flatten =
        (cells :: more).flatten.map ArgumentText.cell := by
      rw [← List.map_cons, ← List.map_flatten]
    have hread : argumentOfCell ∘ Cell.text ∘ ArgumentText.cell = some ∘ ArgumentText.argument :=
      funext argumentOfCell_cell
    simp only
    rw [hcells, List.map_map, List.filterMap_map, hread, List.filterMap_eq_map]

/-! ## Reading the tables -/

theorem indented_settingRows (setting : Cell) (written : List (List Cell)) :
    ∀ r ∈ settingRows setting written, r.indented = true := by
  cases written with
  | nil => simp [settingRows]
  | cons cells more => simp [settingRows]

theorem indented_caseBody (t : CaseText) : ∀ row ∈ t.body.map CellRow.row, row.indented = true := by
  intro row hrow
  obtain ⟨r, hr, rfl⟩ := List.mem_map.mp hrow
  exact indented_settingRows _ _ r hr

theorem indented_keywordBody (t : KeywordText) :
    ∀ row ∈ t.body.map CellRow.row, row.indented = true := by
  intro row hrow
  obtain ⟨r, hr, rfl⟩ := List.mem_map.mp hrow
  rcases List.mem_append.mp hr with hr | hr
  · exact indented_settingRows _ _ r hr
  · exact indented_settingRows _ _ r hr

/-- The entry of a name and its rows, without a place. -/
theorem body_ofRow (t : CaseText) (body : List CellRow) :
    (Entry.ofRow t.nameRow.row (body.map CellRow.row)).body = readCells body := by
  simp [Entry.ofRow, CaseText.nameRow, CellRow.row, Row.rest, readCells]

theorem testCase_ofRow (t : CaseText) :
    (Entry.ofRow t.nameRow.row (t.body.map CellRow.row)).testCase.unplaced = t.declaration := by
  have hbody := body_ofRow t t.body
  rw [← List.append_nil (readCells _)] at hbody
  have hdocumentation := documentation_of_body hbody rfl rfl
  rw [Entry.testCase, hdocumentation]
  rfl

theorem keyword_ofRow (t : KeywordText) :
    (Entry.ofRow t.nameRow.row (t.body.map CellRow.row)).keyword.unplaced = t.declaration := by
  have hparts : readCells t.body = readCells (documentationRows t.documentation) ++
      readCells (argumentRows t.arguments) := readCells_append _ _
  have hbody := body_ofRow t.toCaseText t.body
  rw [hparts] at hbody
  have hother : asciiEqual argumentsCell.text "[documentation]" = false := by decide +kernel
  have hnone := settingCells_other hother (by decide +kernel)
    (t.arguments.map (·.map ArgumentText.cell)) []
  rw [List.append_nil] at hnone
  have hdocumentation := documentation_of_body hbody (continuation_argumentRows t.arguments) hnone
  rw [Entry.keyword, hdocumentation, arguments_of_body hbody]
  rfl

theorem localNameOf_mark (mark : AliasMark) (localName : String) :
    localNameOf [mark.cell.text, localName] = some localName := by
  have hannounced : (asciiEqual mark.cell.text "with name" || mark.cell.text == "AS") = true := by
    cases mark <;> decide +kernel
  simp [localNameOf, hannounced]

theorem libraryOfRow_row (t : SettingText) : libraryOfRow t.row.row = t.library? := by
  have hlibrary : asciiEqual "Library" "library" = true := by decide +kernel
  have hresource : asciiEqual "Resource" "library" = false := by decide +kernel
  cases t with
  | library name localName =>
    cases localName with
    | none => simp [libraryOfRow, SettingText.row, CellRow.row, Row.first, Row.rest, hlibrary,
        localNameOf, SettingText.library?]
    | some announced => simp [libraryOfRow, SettingText.row, CellRow.row, Row.first, Row.rest, hlibrary,
        localNameOf_mark, SettingText.library?]
  | resource path =>
    simp [libraryOfRow, SettingText.row, CellRow.row, Row.first, hresource, SettingText.library?]

theorem resourceOfRow_row (t : SettingText) : resourceOfRow t.row.row = t.resource? := by
  have hlibrary : asciiEqual "Library" "resource" = false := by decide +kernel
  have hresource : asciiEqual "Resource" "resource" = true := by decide +kernel
  cases t with
  | library name localName =>
    cases localName <;>
      simp [resourceOfRow, SettingText.row, CellRow.row, Row.first, hlibrary, SettingText.resource?]
  | resource path =>
    simp [resourceOfRow, SettingText.row, CellRow.row, Row.first, Row.rest, hresource,
      SettingText.resource?]

theorem header?_of_indented {row : Row} (h : row.indented = true) : row.header? = none := by
  simp [Row.header?, h]

theorem header?_headerRow (t : Table) : (CellRow.mk false t.header []).row.header? = some t.kind := by
  have hsettings : SectionKind.ofHeader? "*** Settings ***" = some .settings := by decide +kernel
  have hkeywords : SectionKind.ofHeader? "*** Keywords ***" = some .keywords := by decide +kernel
  have htestCases : SectionKind.ofHeader? "*** Test Cases ***" = some .testCases := by decide +kernel
  have hname : (CellRow.mk false t.header []).row.header? = SectionKind.ofHeader? t.header.text := rfl
  rw [hname]
  cases t with
  | settings => rw [Table.header, hsettings, Table.kind]
  | keywords => rw [Table.header, hkeywords, Table.kind]
  | testCases => rw [Table.header, htestCases, Table.kind]

theorem header?_settingRow (t : SettingText) : t.row.row.header? = none := by
  have hlibrary : SectionKind.ofHeader? "Library" = none := by decide +kernel
  have hresource : SectionKind.ofHeader? "Resource" = none := by decide +kernel
  cases t with
  | library name localName =>
    cases localName <;> simp [Row.header?, SettingText.row, CellRow.row, Row.first, hlibrary]
  | resource path => simp [Row.header?, SettingText.row, CellRow.row, Row.first, hresource]

/-- No row of a table is a header. -/
theorem header?_body (t : Table) : ∀ row ∈ t.body.map CellRow.row, row.header? = none := by
  intro row hrow
  obtain ⟨r, hr, rfl⟩ := List.mem_map.mp hrow
  -- a name is no header by itself, and the rows after it are indented
  cases t with
  | settings all =>
    obtain ⟨t, -, rfl⟩ := List.mem_map.mp hr
    exact header?_settingRow t
  | keywords all =>
    obtain ⟨t, -, hr⟩ := List.mem_flatMap.mp hr
    rcases List.mem_cons.mp hr with rfl | hr
    · exact t.not_header
    · exact header?_of_indented (indented_keywordBody t _ (List.mem_map_of_mem hr))
  | testCases all =>
    obtain ⟨t, -, hr⟩ := List.mem_flatMap.mp hr
    rcases List.mem_cons.mp hr with rfl | hr
    · exact t.not_header
    · exact header?_of_indented (indented_caseBody t _ (List.mem_map_of_mem hr))

/-- The section that a table is read as. -/
def Table.section (t : Table) : Section := ⟨t.kind, t.body.map CellRow.row⟩

theorem sections_tables (tables : List Table) :
    sections ((tables.flatMap Table.rows).map CellRow.row) = tables.map Table.section := by
  induction tables with
  | nil => rfl
  | cons t tables ih =>
    have hnext : ∀ row, ((tables.flatMap Table.rows).map CellRow.row).head? = some row →
        row.header? ≠ none := by
      intro row hrow
      cases tables with
      | nil => cases hrow
      | cons next tables =>
        obtain rfl := Option.some.inj hrow
        rw [header?_headerRow]
        exact Option.some_ne_none _
    rw [List.flatMap_cons, List.map_append, Table.rows, List.map_cons, List.cons_append,
      sections_table (header?_headerRow t) (header?_body t) hnext, ih]
    rfl

/-- The rows of the tables of a kind are what these tables hold. -/
theorem rowsOf_tables (kind : SectionKind) {held : Table → List CellRow}
    (hheld : ∀ t, held t = if t.kind = kind then t.body else []) (tables : List Table) :
    rowsOf kind (tables.map Table.section) = (tables.flatMap held).map CellRow.row := by
  induction tables with
  | nil => rfl
  | cons t tables ih =>
    rw [List.map_cons, rowsOf_cons, ih, List.flatMap_cons, List.map_append, hheld]
    by_cases hkind : t.kind = kind <;> simp [Table.section, hkind]

theorem rowsOf_settings (tables : List Table) : rowsOf .settings (tables.map Table.section) =
    (tables.flatMap Table.settingTexts).map fun t => t.row.row := by
  have hheld (t : Table) : t.settingTexts.map SettingText.row =
      if t.kind = .settings then t.body else [] := by
    cases t <;> rfl
  rw [rowsOf_tables .settings hheld, ← List.map_flatMap, List.map_map]
  rfl

/-- Texts that are names with indented rows are read as so many entries. -/
theorem entries_of_tables {α : Type} {kind : SectionKind} {texts : Table → List α} {name : α → CellRow}
    {body : α → List CellRow} (hname : ∀ a, (name a).row.indented = false)
    (hbody : ∀ a, ∀ row ∈ (body a).map CellRow.row, row.indented = true)
    (htexts : ∀ t, ((texts t).flatMap fun a => name a :: body a) = if t.kind = kind then t.body else [])
    (tables : List Table) : entries (rowsOf kind (tables.map Table.section)) =
      (tables.flatMap texts).map fun a => Entry.ofRow (name a).row ((body a).map CellRow.row) := by
  rw [rowsOf_tables kind htexts, ← List.flatMap_assoc, List.map_flatMap]
  simp only [List.map_cons]
  exact entries_flatMap (fun a => (name a).row) (fun a => (body a).map CellRow.row) hname hbody _

theorem keywords_of_tables (tables : List Table) :
    ((entries (rowsOf .keywords (tables.map Table.section))).map Entry.keyword).map Declaration.unplaced =
      (tables.flatMap Table.keywordTexts).map KeywordText.declaration := by
  have htexts (t : Table) : (t.keywordTexts.flatMap fun t => t.nameRow :: t.body) =
      if t.kind = .keywords then t.body else [] := by
    cases t <;> rfl
  rw [entries_of_tables (fun _ => rfl) indented_keywordBody htexts, List.map_map, List.map_map]
  exact List.map_congr_left fun t _ => keyword_ofRow t

theorem testCases_of_tables (tables : List Table) :
    ((entries (rowsOf .testCases (tables.map Table.section))).map Entry.testCase).map Declaration.unplaced =
      (tables.flatMap Table.caseTexts).map CaseText.declaration := by
  have htexts (t : Table) : (t.caseTexts.flatMap fun t => t.nameRow :: t.body) =
      if t.kind = .testCases then t.body else [] := by
    cases t <;> rfl
  rw [entries_of_tables (fun _ => rfl) indented_caseBody htexts, List.map_map, List.map_map]
  exact List.map_congr_left fun t _ => testCase_ofRow t

/-- What is read of a settings row is what is read of its setting. -/
theorem settings_of_tables {α : Type} {read : Row → Option α} {declared : SettingText → Option α}
    (h : ∀ t : SettingText, read t.row.row = declared t) (tables : List Table) :
    (rowsOf .settings (tables.map Table.section)).filterMap read =
      (tables.flatMap Table.settingTexts).filterMap declared := by
  have hread : read ∘ (fun t : SettingText => t.row.row) = declared := funext h
  rw [rowsOf_settings, List.filterMap_map, hread]

/-- Tables are read as they were written, with any separators and line ends. -/
theorem parse_write (layout : Layout) (tables : List Table) :
    (parse (write layout tables)).unplaced = outlineOfTables tables := by
  calc (parse (write layout tables)).unplaced
    _ = (outlineOf (sections ((rows (write layout tables)).map Row.unplaced))).unplaced :=
      (outlineOf_unplaced _).symm
    _ = (outlineOf (tables.map Table.section)).unplaced := by
      rw [write, rows_writeRows, sections_tables]
    _ = outlineOfTables tables := by
      rw [Outline.unplaced, outlineOf, keywords_of_tables, testCases_of_tables,
        settings_of_tables libraryOfRow_row, settings_of_tables resourceOfRow_row, outlineOfTables]

example :
    let wide : Separator := ⟨"    ".toList, by simp [IsSeparator, isGap]⟩
    write ⟨fun _ _ => wide, fun _ => .returnFeed⟩
      [.settings [.library ⟨"Process", by decide +kernel⟩ (some (.short, ⟨"P", by decide +kernel⟩))],
        .testCases [⟨⟨"Runs", by decide +kernel⟩, by decide +kernel,
          [[⟨"once", by decide +kernel⟩], []]⟩]] =
      "*** Settings ***\r\nLibrary    Process    AS    P\r\n".toList ++
        "*** Test Cases ***\r\nRuns\r\n    [Documentation]    once\r\n    ...\r\n".toList := by
  decide +kernel

end KeywordIndex.Robot
