import KeywordIndex.Proofs.Robot.Cells
import KeywordIndex.Proofs.Robot.Sections
import KeywordIndex.Proofs.Text.Positions

namespace KeywordIndex

open Text

/-! # Where the names stand

Rows count lines and columns while they are read, and `LineIndex` finds the line ends on its own. Both
agree on every name of a keyword or a test case, and the name is a slice of its line although its cell
is put together from words (`positions_at_names`).
-/

namespace Robot

variable {c : Char} {cs line ending rest text name space after : List Char} {d : RowDraft} {row : Row}

/-! ## The first cell of a line -/

namespace RowDraft

/-- The first cell is finished, and its column is known. -/
structure Settled (d : RowDraft) (first : String) (start : UInt32) : Prop where
  cells : d.cells.getLast? = some first
  start : d.start = some start

theorem Settled.endCell {first : String} {start : UInt32} (h : d.Settled first start) :
    d.endCell.Settled first start where
  cells := by
    unfold RowDraft.endCell
    simp only
    split
    · exact h.cells
    · rw [List.getLast?_cons, h.cells]
      rfl
  start := h.start

theorem Settled.read {first : String} {start : UInt32} (h : d.Settled first start) (lexeme : Lexeme) :
    (d.read lexeme).Settled first start := by
  have hkept : d.endCell.Settled first start := h.endCell
  unfold RowDraft.read
  cases lexeme.kind with
  | separator => exact ⟨hkept.cells, hkept.start⟩
  | comment => exact ⟨hkept.cells, hkept.start⟩
  | space => exact ⟨h.cells, h.start⟩
  | word => exact ⟨h.cells, by simp [addWord, h.start]⟩
  | lineEnd => exact ⟨h.cells, by simp [addWord, h.start]⟩

theorem Settled.foldl_read {first : String} {start : UInt32} (h : d.Settled first start)
    (all : List Lexeme) : (all.foldl RowDraft.read d).Settled first start :=
  List.foldlRecOn (motive := fun e => e.Settled first start) all RowDraft.read h
    fun _ he lexeme _ => he.read lexeme

/-- A row has the first cell and the column that were settled. -/
theorem Settled.finish {first : String} {start : UInt32} (h : d.Settled first start)
    (hrow : d.finish = some row) : row.first = first ∧ row.start = start := by
  have hcells := h.endCell.cells
  rw [eq_of_finish hrow]
  constructor
  · simp [Row.first, List.headD_eq_head?_getD, List.head?_reverse, hcells]
  · simp [h.start]

theorem finish_endCell : d.endCell.finish = d.finish := by
  have hend : d.endCell.endCell = d.endCell := by simp [RowDraft.endCell]
  rw [RowDraft.finish, hend]
  rfl

/-- The cell under way is the first one if no other was finished. -/
theorem settled_endCell (hcells : d.cells = []) (hcell : d.cell ≠ []) {start : UInt32}
    (hstart : d.start = some start) : d.endCell.Settled (String.ofList d.cell) start where
  cells := by simp [RowDraft.endCell, hcells, hcell]
  start := hstart

/-- A separator and a comment finish the cell under way. -/
theorem settled_read_end (lexeme : Lexeme) (hkind : lexeme.kind = .separator ∨ lexeme.kind = .comment)
    (hcells : d.cells = []) (hcell : d.cell ≠ []) {start : UInt32} (hstart : d.start = some start) :
    (d.read lexeme).Settled (String.ofList d.cell) start := by
  have hsettled := settled_endCell hcells hcell hstart
  unfold RowDraft.read
  rcases hkind with hkind | hkind
  · rw [hkind]
    exact ⟨hsettled.cells, hsettled.start⟩
  · rw [hkind]
    exact ⟨hsettled.cells, hsettled.start⟩

/-- Once a line begins with a separator, its row is indented. -/
theorem indented_foldl_read (h : d.indented = true) (all : List Lexeme) :
    (all.foldl RowDraft.read d).indented = true := by
  refine List.foldlRecOn (motive := fun e => e.indented = true) all RowDraft.read h ?_
  intro e he lexeme _
  unfold RowDraft.read
  cases lexeme.kind <;> simp [separate, addWord, RowDraft.endCell, he]

end RowDraft

/-- The text begins with the first cell of the row, which stands at `column`. -/
structure Row.Leads (row : Row) (text : List Char) (column : UInt32) : Prop where
  start_eq : row.start = column
  nonempty : row.first.toList ≠ []
  isPrefix : row.first.toList <+: text

theorem RowDraft.Settled.leads {cell : List Char} {start : UInt32}
    (h : d.Settled (String.ofList cell) start) (hcell : cell ≠ []) (hbegins : cell <+: text)
    {all : List Lexeme} (hrow : (all.foldl RowDraft.read d).finish = some row) : row.Leads text start := by
  obtain ⟨hfirst, hstart⟩ := (h.foldl_read all).finish hrow
  refine ⟨hstart, ?_, ?_⟩ <;> rw [hfirst, String.toList_ofList]
  · exact hcell
  · exact hbegins

/-- The cell under way goes on as the text does, up to where the row's first cell ends. -/
theorem leads_of_foldl_read (h : Pieces cs) (hcells : d.cells = []) (hcell : d.cell ≠ []) {start : UInt32}
    (hstart : d.start = some start) (hspaced : d.spaced = true → NotLed isGap cs)
    (hrow : ((lexemes cs).foldl RowDraft.read d).finish = some row) :
    row.Leads (d.pending ++ cs) start := by
  -- a separator, a comment and the end of the line finish the cell as it is
  have hended (d : RowDraft) (cs : List Char) : d.cell <+: d.pending ++ cs := by
    rw [RowDraft.pending, List.append_assoc]
    exact List.prefix_append _ _
  induction h generalizing d with
  | nil =>
    have hsettled := RowDraft.settled_endCell hcells hcell hstart
    rw [lexemes, List.foldl_nil, ← RowDraft.finish_endCell] at hrow
    exact @RowDraft.Settled.leads _ _ _ _ _ hsettled hcell (hended d []) [] hrow
  | @word word rest hne hword hnext _ ih =>
    rw [lexemes_word hne hword hnext, List.foldl_cons] at hrow
    have hgrown : RowDraft.Grown d (d.read ⟨.word, word⟩) word := RowDraft.grown_read_word
    have hstarted : (d.read ⟨.word, word⟩).cell ≠ [] := by simp [RowDraft.cell_read_word, hne]
    have hleads := ih (d := d.read ⟨.word, word⟩) (hgrown.cells.trans hcells) hstarted
      ((hgrown.start (by simp [hstart])).trans hstart) (fun hspaced => by cases hspaced) hrow
    rwa [hgrown.pending, List.append_assoc] at hleads
  | @space rest hnext _ ih =>
    rw [lexemes_space hnext, List.foldl_cons] at hrow
    have hunspaced := RowDraft.unspaced hspaced
    have hleads := ih (d := d.read ⟨.space, [' ']⟩) hcells hcell hstart (fun _ => hnext) hrow
    rwa [RowDraft.pending_read_space hcell hunspaced, List.append_assoc] at hleads
  | @separator separator rest hseparator hnext _ _ =>
    rw [lexemes_separator hseparator hnext, List.foldl_cons] at hrow
    have hsettled := RowDraft.settled_read_end ⟨.separator, separator⟩ (.inl rfl) hcells hcell hstart
    exact hsettled.leads hcell (hended d _) hrow
  | @comment comment hcomment =>
    rw [lexemes_comment_line hcomment, List.foldl_cons] at hrow
    have hsettled := RowDraft.settled_read_end ⟨.comment, '#' :: comment⟩ (.inr rfl) hcells hcell hstart
    exact hsettled.leads hcell (hended d _) hrow

/-- The first word of a line begins its first cell. -/
theorem leads_of_word {word : List Char} (hne : word ≠ []) (hword : ∀ c ∈ word, isWordChar c = true)
    (hnext : NotLed isWordChar rest) (hrest : Pieces rest) (hcells : d.cells = []) (hcell : d.cell = [])
    (hstart : d.start = none)
    (hrow : ((lexemes (word ++ rest)).foldl RowDraft.read d).finish = some row) :
    row.Leads (word ++ rest) (.ofNat d.width) := by
  rw [lexemes_word hne hword hnext, List.foldl_cons] at hrow
  have hpending : d.pending = [] := by simp [RowDraft.pending, hcell]
  have hcells : (d.read ⟨.word, word⟩).cells = [] := hcells
  have hstarted : (d.read ⟨.word, word⟩).cell ≠ [] := by simp [RowDraft.cell_read_word, hne]
  have hplaced : (d.read ⟨.word, word⟩).start = some (.ofNat d.width) := by
    simp [RowDraft.read, RowDraft.addWord, hstart]
  have hleads := leads_of_foldl_read hrest hcells hstarted hplaced (fun hspaced => by cases hspaced) hrow
  rwa [RowDraft.pending_read_word, hpending, List.nil_append] at hleads

theorem isGap_of_isWordChar {c : Char} (h : isWordChar c = true) : isGap c = false := by
  simp only [isWordChar, Bool.not_eq_true', Bool.or_eq_false_iff] at h
  exact h.1.1

theorem notLed_gap_word {word : List Char} (hne : word ≠ []) (hword : ∀ c ∈ word, isWordChar c = true) :
    NotLed isGap (word ++ rest) := by
  cases word with
  | nil => exact absurd rfl hne
  | cons c word =>
    intro d hd
    obtain rfl := Option.some.inj hd
    exact isGap_of_isWordChar (hword c List.mem_cons_self)

theorem IsSeparator.not_notLed {separator : List Char} (h : IsSeparator separator) :
    ¬ NotLed isGap (separator ++ rest) := by
  intro hclear
  match separator, h with
  | [], ⟨_, hwide⟩ => simp at hwide
  | c :: _, ⟨hgaps, _⟩ =>
    have hgap := hgaps c List.mem_cons_self
    rw [hclear c rfl] at hgap
    cases hgap

/-- A line that begins with a separator gives an indented row. -/
theorem indented_of_separator {separator : List Char} (hseparator : IsSeparator separator)
    (hnext : NotLed isGap rest) {number : UInt32} (hrow : rowOfLine number (separator ++ rest) = some row) :
    row.indented = true := by
  rw [rowOfLine, lexemes_separator hseparator hnext, List.foldl_cons] at hrow
  rw [RowDraft.eq_of_finish hrow]
  exact RowDraft.indented_foldl_read rfl _

/-- The first cell of a line that does not begin with a separator stands after at most one space. -/
theorem leads_of_rowOfLine (hline : OnOneLine line) {number : UInt32}
    (hrow : rowOfLine number line = some row) (hindented : row.indented = false) :
    ∃ space rest, line = space ++ rest ∧ (space = [] ∨ space = [' ']) ∧ NotLed isGap rest ∧
      row.Leads rest (.ofNat (byteLength space)) := by
  cases pieces hline with
  | nil =>
    rw [rowOfLine, lexemes] at hrow
    cases hrow
  | @word word rest hne hword hnext hrest =>
    refine ⟨[], word ++ rest, rfl, .inl rfl, notLed_gap_word hne hword, ?_⟩
    exact leads_of_word hne hword hnext hrest rfl rfl rfl hrow
  | @space after hnext hafter =>
    refine ⟨[' '], after, rfl, .inr rfl, hnext, ?_⟩
    rw [rowOfLine, lexemes_space hnext, List.foldl_cons] at hrow
    cases hafter with
    | nil =>
      rw [lexemes] at hrow
      cases hrow
    | word hne hword hclear hrest => exact leads_of_word hne hword hclear hrest rfl rfl rfl hrow
    | space => exact absurd (hnext ' ' rfl) (by decide)
    | separator hseparator => exact absurd hnext hseparator.not_notLed
    | comment hcomment =>
      rw [lexemes_comment_line hcomment, List.foldl_cons] at hrow
      cases hrow
  | separator hseparator hnext hrest =>
    rw [indented_of_separator hseparator hnext hrow] at hindented
    cases hindented
  | comment hcomment =>
    rw [rowOfLine, lexemes_comment_line hcomment, List.foldl_cons] at hrow
    cases hrow

end Robot

/-! ## The starts of the lines -/

namespace LineIndex

open Robot

variable {c : Char} {cs line ending rest : List Char} {starts : List Nat} {offset start next : Nat}

theorem startsFrom_cons (h : isLineEnd c = false) (start : Nat) (cs : List Char) :
    startsFrom start (c :: cs) = startsFrom (start + c.utf8Size) cs := by
  simp only [isLineEnd, Bool.or_eq_false_iff, beq_eq_false_iff_ne] at h
  rw [startsFrom]
  · simp [h]
  · intro _ hc _
    exact h.2 hc

theorem startsFrom_append (h : OnOneLine line) (start : Nat) (rest : List Char) :
    startsFrom start (line ++ rest) = startsFrom (start + byteLength line) rest := by
  induction line generalizing start with
  | nil => rfl
  | cons c line ih =>
    rw [List.cons_append, startsFrom_cons (h c List.mem_cons_self),
      ih fun d hd => h d (List.mem_cons_of_mem _ hd), byteLength, Nat.add_assoc]

theorem startsFrom_ending (h : Ends ending rest) (start : Nat) : startsFrom start (ending ++ rest) =
    (start + byteLength ending) :: startsFrom (start + byteLength ending) rest := by
  rcases h with rfl | rfl | ⟨rfl, hrest⟩
  · simp [startsFrom, byteLength]
  · have hsize : '\r'.utf8Size = 1 ∧ '\n'.utf8Size = 1 := ⟨rfl, rfl⟩
    simp [startsFrom, byteLength, hsize]
  · rw [List.cons_append, List.nil_append, startsFrom]
    · simp [byteLength]
    · rintro _ - rfl
      exact hrest rfl

theorem byteLength_pos_of_ends (h : Ends ending rest) : 0 < byteLength ending := by
  rcases h with rfl | rfl | ⟨rfl, -⟩ <;> decide

/-- The line after a line starts behind its end. -/
theorem startsFrom_line (hline : OnOneLine line) (h : Ends ending rest) (start : Nat) :
    startsFrom start (line ++ (ending ++ rest)) =
      (start + byteLength (line ++ ending)) :: startsFrom (start + byteLength (line ++ ending)) rest := by
  rw [startsFrom_append hline, startsFrom_ending h, byteLength_append, Nat.add_assoc]

/-- An offset before the next start is on the first line. -/
theorem position_first (h : start ≤ offset) (hnext : ∀ next, starts.head? = some next → offset < next) :
    (LineIndex.mk (start :: starts)).position offset = ⟨0, offset - start⟩ := by
  have hstop : starts.takeWhile (· ≤ offset) = [] := by
    cases starts with
    | nil => rfl
    | cons next starts => simp [hnext next rfl]
  simp [position, h, hstop]

/-- The first line does not matter for what is behind its end. -/
theorem position_later (h : start ≤ offset) (hnext : next ≤ offset) :
    (LineIndex.mk (start :: next :: starts)).position offset =
      ⟨((LineIndex.mk (next :: starts)).position offset).line + 1,
        ((LineIndex.mk (next :: starts)).position offset).column⟩ := by
  simp [position, h, hnext]

/-- Neither the line nor the column of an offset exceeds the length of the text. -/
theorem position_fits {cs : List Char} (h : offset ≤ byteLength cs) :
    ((ofText cs).position offset).line ≤ byteLength cs ∧
      ((ofText cs).position offset).column ≤ byteLength cs :=
  ⟨(line_le cs offset).trans h, (Nat.sub_le _ _).trans h⟩

end LineIndex

/-! ## Names in the text -/

namespace Robot

variable {line ending rest text name : List Char} {row : Row} {offset : Nat}

/-- A line starts between the two texts. -/
def LineStart (before rest : List Char) : Prop :=
  before = [] ∨ ∃ start ending, before = start ++ ending ∧ Ends ending rest

/-- The name stands at the byte `offset` of the text, after at most one space on a line that does not
begin with a separator. -/
def NameAt (text name : List Char) (offset : Nat) : Prop :=
  ∃ before space after, text = before ++ (space ++ (name ++ after)) ∧
    LineStart before (space ++ (name ++ after)) ∧ (space = [] ∨ space = [' ']) ∧
    name ≠ [] ∧ NotLed isGap name ∧
    (∀ separator rest, IsSeparator separator → space ++ (name ++ after) ≠ separator ++ rest) ∧
    offset = byteLength (before ++ space)

/-- A name after at most one space is no part of a separator. -/
theorem not_separator_of_name {space cs : List Char} (hspace : space = [] ∨ space = [' '])
    (hcs : NotLed isGap cs) {separator rest : List Char} (h : IsSeparator separator) :
    space ++ cs ≠ separator ++ rest := by
  intro heq
  rcases hspace with rfl | rfl
  · rw [List.nil_append] at heq
    rw [heq] at hcs
    exact h.not_notLed hcs
  · match separator, h with
    | [], ⟨_, hwide⟩ => simp at hwide
    | [c], ⟨_, hwide⟩ =>
      obtain rfl : c = '\t' := by simpa using hwide
      exact absurd (List.cons.inj heq).1 (by decide)
    | _ :: c :: separator, ⟨hgaps, _⟩ =>
      have hrest : cs = c :: separator ++ rest := (List.cons.inj heq).2
      have hhead : cs.head? = some c := by rw [hrest]; rfl
      have hgap := hgaps c (by simp)
      rw [hcs c hhead] at hgap
      cases hgap

/-- The first cell of a line is a name in the text that begins with the line. -/
theorem nameAt_of_rowOfLine (hline : OnOneLine line) {number : UInt32}
    (hrow : rowOfLine number line = some row) (hindented : row.indented = false) (rest : List Char) :
    NameAt (line ++ rest) row.first.toList row.column := by
  obtain ⟨space, cs, rfl, hspace, hcs, hleads⟩ := leads_of_rowOfLine hline hrow hindented
  obtain ⟨after, hafter⟩ := hleads.isPrefix
  subst hafter
  -- a column of at most one fits
  have hcolumn : row.column = byteLength space := by
    rw [Row.column, hleads.start_eq]
    rcases hspace with rfl | rfl <;> rfl
  refine ⟨[], space, after ++ rest, by simp, .inl rfl, hspace, hleads.nonempty, hcs.of_append, ?_,
    hcolumn⟩
  intro separator more hseparator
  exact not_separator_of_name hspace (hcs.of_append.append_of_ne_nil hleads.nonempty _) hseparator

/-- A name in the lines after a line is a name in the text that begins with the line. -/
theorem NameAt.after_line (h : NameAt rest name offset) (hending : Ends ending rest) :
    NameAt (line ++ (ending ++ rest)) name (byteLength (line ++ ending) + offset) := by
  obtain ⟨before, space, after, rfl, hstart, hspace, hne, hname, hseparator, rfl⟩ := h
  refine ⟨line ++ ending ++ before, space, after, by simp, .inr ?_, hspace, hne, hname, hseparator,
    by simp [Nat.add_assoc]⟩
  rcases hstart with rfl | ⟨start, last, rfl, hlast⟩
  · exact ⟨line, ending, by simp, hending⟩
  · exact ⟨line ++ ending ++ start, last, by simp, hlast⟩

theorem NameAt.offset_le (h : NameAt text name offset) : offset ≤ byteLength text := by
  obtain ⟨before, space, after, rfl, -, -, -, -, -, rfl⟩ := h
  simp only [byteLength_append]
  omega

/-- A row that is not indented stands where the line index places its first cell, if the lines can be
counted. -/
theorem place_of_row (h : Lines text) : ∀ (number start : Nat) {row : Row},
    number + byteLength text < 2 ^ 32 →
    row ∈ rowsFrom { line := .ofNat number } (lexemes text) → row.indented = false →
    ∃ offset place, NameAt text row.first.toList offset ∧
      (LineIndex.mk (start :: LineIndex.startsFrom start text)).position (start + offset) = place ∧
      row.number = number + place.line ∧ row.column = place.column := by
  -- the first line is left behind with its number and its start, which are general for that
  induction h with
  | @last line hline =>
    intro number start row hsmall hmem hindented
    rw [rowsFrom_last hline, Option.mem_toList] at hmem
    have hname := nameAt_of_rowOfLine hline hmem hindented []
    have hstarts := LineIndex.startsFrom_append hline start []
    rw [List.append_nil] at hname hstarts
    refine ⟨row.column, _, hname, rfl, ?_⟩
    rw [hstarts, LineIndex.startsFrom, LineIndex.position_first (Nat.le_add_right _ _) (by simp)]
    simp [number_of_rowOfLine (Nat.lt_of_add_right_lt hsmall) hmem]
  | @line line ending rest hline hending _ ih =>
    intro number start row hsmall hmem hindented
    rw [rowsFrom_line hline hending, List.mem_append, Option.mem_toList] at hmem
    rw [LineIndex.startsFrom_line hline hending]
    have hlength := LineIndex.byteLength_pos_of_ends hending
    simp only [byteLength_append] at hsmall
    rcases hmem with hmem | hmem
    · -- the name ends before the line does
      have hname := nameAt_of_rowOfLine hline hmem hindented []
      rw [List.append_nil] at hname
      have hbefore : row.column < byteLength (line ++ ending) := by
        have hinside := hname.offset_le
        rw [byteLength_append]
        omega
      refine ⟨row.column, _, nameAt_of_rowOfLine hline hmem hindented _, rfl, ?_⟩
      rw [LineIndex.position_first (Nat.le_add_right _ _)]
      · simp [number_of_rowOfLine (Nat.lt_of_add_right_lt hsmall) hmem]
      · intro next hnext
        obtain rfl := Option.some.inj hnext
        omega
    · obtain ⟨offset, place, hname, rfl, hnumber, hcolumn⟩ :=
        ih (number + 1) (start + byteLength (line ++ ending)) (by omega) hmem hindented
      refine ⟨byteLength (line ++ ending) + offset, _, hname.after_line hending, rfl, ?_⟩
      rw [← Nat.add_assoc, LineIndex.position_later (by omega) (by omega)]
      exact ⟨by simp only; omega, hcolumn⟩

/-- Rows are numbered by their lines, which come one after another as long as they can be counted. -/
theorem rowsFrom_ordered (h : Lines text) : ∀ number : Nat, number + byteLength text < 2 ^ 32 →
    (∀ row ∈ rowsFrom { line := .ofNat number } (lexemes text), number ≤ row.number) ∧
      (rowsFrom { line := .ofNat number } (lexemes text)).Pairwise fun a b => a.number < b.number := by
  have hnumber {number : Nat} {line : List Char} {row : Row} (hsmall : number < 2 ^ 32)
      (h : row ∈ (rowOfLine (.ofNat number) line).toList) : row.number = number :=
    number_of_rowOfLine hsmall (Option.mem_toList.mp h)
  have hsingle (number : UInt32) (line : List Char) :
      (rowOfLine number line).toList.Pairwise fun a b => a.number < b.number := by
    cases rowOfLine number line <;> simp
  induction h with
  | last hline =>
    intro number hsmall
    rw [rowsFrom_last hline]
    exact ⟨fun row hrow => (hnumber (Nat.lt_of_add_right_lt hsmall) hrow).ge, hsingle _ _⟩
  | line hline hending _ ih =>
    intro number hsmall
    have hlength := LineIndex.byteLength_pos_of_ends hending
    simp only [byteLength_append] at hsmall
    have hcounted : number < 2 ^ 32 := Nat.lt_of_add_right_lt hsmall
    obtain ⟨hlater, hordered⟩ := ih (number + 1) (by omega)
    rw [rowsFrom_line hline hending]
    constructor
    · intro row hrow
      rcases List.mem_append.mp hrow with hrow | hrow
      · exact (hnumber hcounted hrow).ge
      · have := hlater row hrow
        omega
    · refine List.pairwise_append.mpr ⟨hsingle _ _, hordered, ?_⟩
      intro a ha b hb
      have hfirst := hnumber hcounted ha
      have hsecond := hlater b hb
      omega

/-- Every declaration has the position at which the line index places its name in the text, and the
positions increase. Line and column fit into 32 bits. -/
structure Placed (text : List Char) (all : List Declaration) : Prop where
  named : ∀ d ∈ all, ∃ offset place, NameAt text d.name.toList offset ∧ d.position = some place ∧
    (LineIndex.ofText text).position offset = place ∧ place.line < 2 ^ 32 ∧ place.column < 2 ^ 32
  increasing : all.Pairwise fun a b => ∃ p q, a.position = some p ∧ b.position = some q ∧ p.Before q

/-- Declarations that rows of the text name in their order are placed. -/
theorem placed_of_rows (h : byteLength text < 2 ^ 32) {rs : List Row} (hrs : rs.Sublist (rows text))
    (hindented : ∀ row ∈ rs, row.indented = false) {all : List Declaration}
    (hmap : all.map (fun d => (d.name, d.position)) =
      rs.map fun row => (row.first, some ⟨row.number, row.column⟩)) : Placed text all where
  named := by
    intro d hd
    have hmem : (d.name, d.position) ∈ rs.map fun row => (row.first, some ⟨row.number, row.column⟩) := by
      rw [← hmap]
      exact List.mem_map_of_mem hd
    obtain ⟨row, hrow, heq⟩ := List.mem_map.mp hmem
    obtain ⟨hfirst, hposition⟩ := Prod.mk.inj heq
    obtain ⟨offset, place, hname, hplace, hline, hcolumn⟩ :=
      place_of_row (lines text) 0 0 (by omega) (hrs.mem hrow) (hindented row hrow)
    rw [Nat.zero_add] at hplace hline
    have hfits := LineIndex.position_fits hname.offset_le
    rw [LineIndex.ofText, hplace] at hfits
    refine ⟨offset, place, hfirst ▸ hname, ?_, hplace, by omega, by omega⟩
    rw [← hposition, hline, hcolumn]
  increasing := by
    have hordered := (rowsFrom_ordered (lines text) 0 (by omega)).2.sublist hrs
    have hpositions : (all.map fun d => (d.name, d.position)).Pairwise
        fun a b => ∃ p q, a.2 = some p ∧ b.2 = some q ∧ p.Before q := by
      rw [hmap, List.pairwise_map]
      exact hordered.imp fun hlt => ⟨_, _, rfl, rfl, .inl hlt⟩
    rw [List.pairwise_map] at hpositions
    exact hpositions

/-- The position of every keyword and of every test case is where the line index places its name in the
text, and in each of the two lists the positions increase. -/
theorem positions_at_names (h : byteLength text < 2 ^ 32) :
    Placed text (parse text).keywords ∧ Placed text (parse text).testCases := by
  have htable (kind : SectionKind) (declare : Entry → Declaration)
      (hdeclare : ∀ e, ((declare e).name, (declare e).position) = (e.name, some e.position)) :
      Placed text ((entries (rowsOf kind (sections (rows text)))).map declare) := by
    have hindented : ∀ row ∈ (rowsOf kind (sections (rows text))).filter (!·.indented),
        row.indented = false := by
      intro row hrow
      simpa using (List.mem_filter.mp hrow).2
    refine placed_of_rows h (List.filter_sublist.trans (rowsOf_sublist kind (rows text))) hindented ?_
    rw [List.map_map, ← entries_names]
    exact List.map_congr_left fun e _ => hdeclare e
  exact ⟨htable .keywords Entry.keyword fun _ => rfl, htable .testCases Entry.testCase fun _ => rfl⟩

/-- A text with all line ends, a comment line and a name after a space. -/
def mixedText : List Char := "*** Keywords ***\r\n Log in\r# note\n\nÄrger\tLog".toList

theorem positions_at_names_mixed : byteLength mixedText < 2 ^ 32 ∧
    (parse mixedText).keywords.map (fun d => (d.name, d.position)) =
      [("Log in", some ⟨1, 1⟩), ("Ärger", some ⟨4, 0⟩)] ∧
    Placed mixedText (parse mixedText).keywords := by
  have hlength : byteLength mixedText < 2 ^ 32 := by decide
  exact ⟨hlength, by decide +kernel, (positions_at_names hlength).1⟩

end Robot

end KeywordIndex
