import KeywordIndex.Proofs.Robot.Placement
import Mathlib.Data.List.SplitBy

namespace KeywordIndex.Robot

open Text

/-! # The grammar of table rows

Rows are read lexeme by lexeme into a draft. They are also what a grammar says: the text is cut into lines,
a line ends where its comment begins, and the rest is cut at the wide runs of spaces and tabs into slices,
which lose a space at either end (`tableRows`). Both give the same rows (`rows_eq_tableRows`), since a draft
holds at any time what the grammar makes of the runs read so far (`RowDraft.Reads`). The grammar counts lines
and columns without end, and the rows hold as much of the counts as their words do.
-/

/-! ## The grammar -/

/-- The lines of a text. They end at a carriage return with a line feed, at a line feed and at a lone
carriage return; what follows the last end is a line too. -/
def physicalLines : List Char → List (List Char)
  | [] => [[]]
  | '\r' :: '\n' :: cs => [] :: physicalLines cs
  | c :: cs =>
    if isLineEnd c then [] :: physicalLines cs else (physicalLines cs).modifyHead (c :: ·)

/-- The line up to its first `#`. -/
def uncommented (line : List Char) : List Char := line.takeWhile (· != '#')

/-- The maximal runs of spaces and tabs, and of other characters. -/
def runs (cs : List Char) : List (List Char) := cs.splitBy fun a b => isGap a == isGap b

/-- Whether the run is of spaces and tabs and contains a tab or has length at least two. -/
def isWide (run : List Char) : Bool := run.all isGap && (run.contains '\t' || 2 ≤ run.length)

/-- A slice of a line and the byte column at which it begins. -/
structure Slice where
  column : Nat
  text : List Char

namespace Slice

/-- The byte column at which the slice ends. -/
def stop (s : Slice) : Nat := s.column + byteLength s.text

/-- Removes one space at the end. -/
def dropLastSpace (cs : List Char) : List Char :=
  if cs.getLast? = some ' ' then cs.dropLast else cs

/-- The slice without a single space at its ends. -/
def stripped (s : Slice) : Slice :=
  match s.text with
  | ' ' :: cs => ⟨s.column + 1, dropLastSpace cs⟩
  | cs => ⟨s.column, dropLastSpace cs⟩

end Slice

/-- The slices between the wide runs, when `s` is the slice before the given runs. -/
def slicesFrom (s : Slice) : List (List Char) → List Slice
  | [] => [s]
  | run :: rest =>
    if isWide run then s :: slicesFrom ⟨s.stop + byteLength run, []⟩ rest
    else slicesFrom ⟨s.column, s.text ++ run⟩ rest

/-- The slices, stripped, that are not empty. -/
def kept (all : List Slice) : List Slice := (all.map Slice.stripped).filter (!·.text.isEmpty)

/-- A row of the grammar, with the number of its line and the byte column of its first cell. -/
structure TableRow where
  number : Nat
  column : Nat
  indented : Bool
  cells : List String
  deriving DecidableEq

/-- The row with its place counted in words. -/
def TableRow.row (r : TableRow) : Row := ⟨.ofNat r.number, .ofNat r.column, r.indented, r.cells⟩

/-- The row with the given slices as its cells, if there are any. -/
def rowOfSlices (number : Nat) (indented : Bool) : List Slice → Option TableRow
  | [] => none
  | first :: rest =>
    some ⟨number, first.column, indented, (first :: rest).map fun s => String.ofList s.text⟩

/-- The row of a line. It is indented if the line begins with a wide run. -/
def tableRow (number : Nat) (line : List Char) : Option TableRow :=
  rowOfSlices number (isWide (line.takeWhile isGap))
    (kept (slicesFrom ⟨0, []⟩ (runs (uncommented line))))

/-- The rows of a text, with the numbers of their lines. -/
def tableRows (text : List Char) : List TableRow :=
  (physicalLines text).zipIdx.filterMap fun (line, number) => tableRow number line

variable {c : Char} {cs line ending rest run text word lead : List Char} {number : Nat} {row : Row}
variable {r : TableRow}

/-! ## Lines -/

theorem physicalLines_cons (h : isLineEnd c = false) (cs : List Char) :
    physicalLines (c :: cs) = (physicalLines cs).modifyHead (c :: ·) := by
  rw [physicalLines]
  · rw [if_neg (by simp [h])]
  · rintro _ rfl -
    cases h

theorem physicalLines_append (h : OnOneLine line) (rest : List Char) :
    physicalLines (line ++ rest) = (physicalLines rest).modifyHead (line ++ ·) := by
  induction line with
  | nil => cases hlines : physicalLines rest <;> simp [hlines]
  | cons c line ih =>
    rw [List.cons_append, physicalLines_cons (h c List.mem_cons_self),
      ih fun d hd => h d (List.mem_cons_of_mem c hd), List.modifyHead_modifyHead]
    rfl

theorem physicalLines_last (h : OnOneLine line) : physicalLines line = [line] := by
  have hlines := physicalLines_append h []
  rwa [List.append_nil, physicalLines, List.modifyHead_cons, List.append_nil] at hlines

theorem physicalLines_line (hline : OnOneLine line) (h : Ends ending rest) :
    physicalLines (line ++ (ending ++ rest)) = line :: physicalLines rest := by
  have hending : physicalLines (ending ++ rest) = [] :: physicalLines rest := by
    rcases h with rfl | rfl | ⟨rfl, hrest⟩
    · rfl
    · rfl
    · rw [List.singleton_append, physicalLines]
      · rfl
      · rintro _ - rfl
        exact hrest rfl
  rw [physicalLines_append hline, hending, List.modifyHead_cons, List.append_nil]

/-! ## Runs -/

/-- A run ends before a character of the other kind. -/
theorem runs_append {g : Bool} (hne : run ≠ []) (hrun : ∀ c ∈ run, isGap c = g)
    (hrest : ∀ c ∈ rest.head?, isGap c = !g) : runs (run ++ rest) = run :: runs rest := by
  have hchain : run.IsChain fun a b => (isGap a == isGap b) = true := by
    refine List.Pairwise.isChain (List.pairwise_of_forall_mem_list fun a ha b hb => ?_)
    rw [hrun a ha, hrun b hb, beq_self_eq_true]
  have hsplit : (run ++ rest).splitBy (fun a b => isGap a == isGap b) =
      run.splitBy (fun a b => isGap a == isGap b) ++ rest.splitBy fun a b => isGap a == isGap b := by
    refine List.splitBy_append fun a ha b hb => ?_
    rw [hrun a (List.mem_of_mem_getLast? ha), hrest b hb]
    cases g <;> rfl
  rw [runs, hsplit, List.splitBy_of_isChain hne hchain]
  rfl

theorem uncommented_append (h : '#' ∉ run) (rest : List Char) :
    uncommented (run ++ rest) = run ++ uncommented rest := by
  refine List.takeWhile_append_of_pos fun c hc => ?_
  rw [bne_iff_ne]
  rintro rfl
  exact h hc

/-- Where a comment begins, the line ends. -/
theorem head?_uncommented (hc : c ∈ (uncommented cs).head?) : c ∈ cs.head? ∧ c ≠ '#' := by
  cases cs with
  | nil => cases hc
  | cons d cs =>
    rw [uncommented, List.takeWhile_cons] at hc
    split at hc
    · next hd =>
      obtain rfl := Option.some.inj hc
      exact ⟨rfl, by simpa using hd⟩
    · cases hc

/-- The runs of a line that begins with spaces or tabs. -/
theorem runs_gaps (hne : run ≠ []) (hrun : ∀ c ∈ run, isGap c = true) (hnext : NotLed isGap rest) :
    runs (uncommented (run ++ rest)) = run :: runs (uncommented rest) := by
  have hsharp : '#' ∉ run := fun hmem => absurd (hrun '#' hmem) (by decide)
  rw [uncommented_append hsharp]
  exact runs_append hne hrun fun c hc => hnext c (head?_uncommented hc).1

theorem runs_word (hne : word ≠ []) (hword : ∀ c ∈ word, isWordChar c = true)
    (hnext : NotLed isWordChar rest) (hline : OnOneLine rest) :
    runs (uncommented (word ++ rest)) = word :: runs (uncommented rest) := by
  have hsharp : '#' ∉ word := fun hmem => absurd (hword '#' hmem) (by decide)
  rw [uncommented_append hsharp]
  refine runs_append (g := false) hne (fun c hc => ?_) fun c hc => ?_
  · exact isGap_of_isWordChar (hword c hc)
  · -- what is no comment, no line end and no word is a gap
    obtain ⟨hhead, hsharp⟩ := head?_uncommented hc
    have hclear := hnext c hhead
    have hend := hline c (List.mem_of_mem_head? hhead)
    simpa [isWordChar, hend, hsharp] using hclear

theorem isWide_word (hne : word ≠ []) (hword : ∀ c ∈ word, isWordChar c = true) : isWide word = false := by
  obtain ⟨c, rest, rfl⟩ := List.exists_cons_of_ne_nil hne
  have hc := isGap_of_isWordChar (hword c List.mem_cons_self)
  simp [isWide, hc]

theorem IsSeparator.ne_nil (h : IsSeparator run) : run ≠ [] := by
  rintro rfl
  rcases h.2 with h | h <;> simp at h

/-- The wide runs are the separators. -/
theorem isWide_iff : isWide run = true ↔ IsSeparator run := by
  rw [isWide, Bool.and_eq_true, List.all_eq_true, Bool.or_eq_true, List.contains_iff_mem,
    decide_eq_true_eq, IsSeparator]
  refine and_congr_right fun _ => or_congr_left' fun hshort => ?_
  match run with
  | [] => simp
  | [c] => simp [eq_comm]
  | _ :: _ :: _ => simp at hshort

theorem eq_of_not_isWide (hgaps : ∀ c ∈ run, isGap c = true) (h : isWide run = false) :
    run = [] ∨ run = [' '] := by
  match run with
  | [] => exact .inl rfl
  | [c] =>
    have hgap := hgaps c (List.mem_singleton_self c)
    simp only [isGap, Bool.or_eq_true, beq_iff_eq] at hgap
    rcases hgap with rfl | rfl
    · exact .inr rfl
    · cases h
  | _ :: _ :: _ => simp [isWide, List.all_eq_true.mpr hgaps] at h

/-! ## Slices -/

@[simp] theorem kept_append (a b : List Slice) : kept (a ++ b) = kept a ++ kept b := by simp [kept]

/-- A slice that is empty when it is stripped is not kept. -/
theorem kept_singleton {s : Slice} {column : Nat} {cell : List Char} (h : s.stripped = ⟨column, cell⟩) :
    kept [s] = if cell = [] then [] else [⟨column, cell⟩] := by
  by_cases hcell : cell = [] <;> simp [kept, h, hcell]

/-- The slices of a line end within it. -/
theorem stop_of_mem_slicesFrom {s t : Slice} {all : List (List Char)} (h : t ∈ slicesFrom s all) :
    t.stop ≤ s.stop + byteLength all.flatten := by
  fun_induction slicesFrom s all with
  | case1 s =>
    rw [List.mem_singleton.mp h]
    exact Nat.le_add_right _ _
  | case2 s run rest _ ih =>
    rw [List.flatten_cons, byteLength_append]
    rcases List.mem_cons.mp h with rfl | h
    · exact Nat.le_add_right _ _
    · have := ih h
      simp only [Slice.stop, byteLength] at this ⊢
      omega
  | case3 s run rest _ ih =>
    have := ih h
    simp only [Slice.stop, List.flatten_cons, byteLength_append] at this ⊢
    omega

theorem Slice.column_stripped_le (s : Slice) : s.stripped.column ≤ s.stop := by
  unfold Slice.stripped Slice.stop
  split
  · next cs htext =>
    have hsize : ' '.utf8Size = 1 := rfl
    rw [htext, byteLength, hsize]
    simp only
    omega
  · exact Nat.le_add_right _ _

theorem rowOfSlices_eq_none_iff {indented : Bool} {all : List Slice} :
    rowOfSlices number indented all = none ↔ all = [] := by
  cases all <;> simp [rowOfSlices]

theorem eq_of_rowOfSlices {indented : Bool} {all : List Slice}
    (h : rowOfSlices number indented all = some r) : ∃ first ∈ all,
      r = ⟨number, first.column, indented, all.map fun s => String.ofList s.text⟩ := by
  cases all with
  | nil => cases h
  | cons first rest => exact ⟨first, List.mem_cons_self, (Option.some.inj h).symm⟩

/-! ## Drafts -/

namespace RowDraft

variable {d : RowDraft} {done : List Slice} {s : Slice}

/-- The draft has read `cs` of a slice: the space `lead` or nothing, the cell, and at most a space. -/
structure Fills (d : RowDraft) (cs lead : List Char) : Prop where
  text : cs = lead ++ d.pending
  lead_narrow : lead = [] ∨ lead = [' ']
  spaced : d.cell = [] → (d.spaced = true ↔ lead = [' '])
  head : d.cell.head? ≠ some ' '
  last : d.cell.getLast? ≠ some ' '

/-- The draft has read the slices `done` and is reading the slice `s`. -/
structure Reads (d : RowDraft) (done : List Slice) (s : Slice) (lead : List Char) : Prop where
  fills : d.Fills s.text lead
  width : d.width = s.stop
  cells : d.cells.reverse = (kept done).map fun s => String.ofList s.text
  start : d.start = (kept (done ++ [s])).head?.map fun s => .ofNat s.column

theorem fills_nil (hcell : d.cell = []) (hspaced : d.spaced = false) : d.Fills [] [] where
  text := by simp [pending, hcell]
  lead_narrow := .inl rfl
  spaced _ := by simp [hspaced]
  head := by simp [hcell]
  last := by simp [hcell]

theorem Fills.read_word (h : d.Fills cs lead) (hne : word ≠ []) (hword : ∀ c ∈ word, isWordChar c = true) :
    (d.read ⟨.word, word⟩).Fills (cs ++ word) lead := by
  have hspace : ' ' ∉ word := fun hmem => absurd (hword ' ' hmem) (by decide)
  refine ⟨?_, h.lead_narrow, fun hcell => ?_, ?_, ?_⟩
  · rw [h.text, pending_read_word, List.append_assoc]
  · simp [cell_read_word, hne] at hcell
  · rw [cell_read_word, pending]
    cases hcell : d.cell with
    | nil =>
      intro hhead
      exact hspace (List.mem_of_mem_head? (by simpa using hhead))
    | cons c rest =>
      have := h.head
      simpa [hcell] using this
  · rw [cell_read_word, List.getLast?_append_of_ne_nil _ hne]
    exact fun hlast => hspace (List.mem_of_getLast? hlast)

/-- A space stands before the cell if there is none yet. -/
theorem Fills.read_space (h : d.Fills cs lead) (hspaced : d.spaced = false) :
    (d.read ⟨.space, [' ']⟩).Fills (cs ++ [' ']) (if d.cell = [] then [' '] else lead) := by
  by_cases hcell : d.cell = []
  · have hlead : lead = [] := by
      refine h.lead_narrow.resolve_right fun hlead => ?_
      rw [(h.spaced hcell).mpr hlead] at hspaced
      cases hspaced
    have hempty : cs = [] := by rw [h.text, hlead, pending_of_spaced hspaced, hcell]; rfl
    rw [if_pos hcell]
    refine ⟨?_, .inr rfl, fun _ => ?_, h.head, h.last⟩
    · simp [hempty, pending, read, hcell]
    · simp [read]
  · rw [if_neg hcell]
    refine ⟨?_, h.lead_narrow, fun hnil => absurd hnil hcell, h.head, h.last⟩
    rw [h.text, pending_read_space hcell hspaced, List.append_assoc]

theorem dropLastSpace_pending (h : d.cell.getLast? ≠ some ' ') :
    Slice.dropLastSpace d.pending = d.cell := by
  unfold Slice.dropLastSpace pending
  split
  · split
    · exact List.dropLast_concat
    · next hspaced hlast =>
      rw [List.getLast?_concat] at hlast
      exact absurd rfl hlast
  · rw [List.append_nil, if_neg h]

/-- Stripping the slice leaves the cell. -/
theorem Fills.stripped (h : d.Fills s.text lead) :
    s.stripped = ⟨s.column + byteLength lead, d.cell⟩ := by
  have hcell := dropLastSpace_pending h.last
  have htext := h.text
  unfold Slice.stripped
  rcases h.lead_narrow with rfl | rfl
  · rw [List.nil_append] at htext
    split
    · next cs hspace =>
      -- the slice would begin with a space only if its cell did
      rw [htext] at hspace
      have hhead : d.cell.head? = some ' ' := by
        cases hdraft : d.cell with
        | nil => simp [pending, hdraft] at hspace
        | cons c rest =>
          rw [pending, hdraft, List.cons_append] at hspace
          rw [List.head?_cons, (List.cons.inj hspace).1]
      exact absurd hhead h.head
    · rw [htext, hcell]
      rfl
  · rw [htext, List.singleton_append]
    simp only [hcell]
    rfl

theorem Fills.kept (h : d.Fills s.text lead) :
    kept [s] = if d.cell = [] then [] else [⟨s.column + byteLength lead, d.cell⟩] :=
  kept_singleton h.stripped

theorem reads_new (line : UInt32) : Reads { line := line } [] ⟨0, []⟩ [] where
  fills := fills_nil rfl rfl
  width := rfl
  cells := rfl
  start := rfl

/-- A word continues the slice. It gives the row its column if it is the first. -/
theorem Reads.read_word (h : d.Reads done s lead) (hne : word ≠ [])
    (hword : ∀ c ∈ word, isWordChar c = true) :
    (d.read ⟨.word, word⟩).Reads done ⟨s.column, s.text ++ word⟩ lead := by
  have hfills := h.fills.read_word hne hword
  refine ⟨hfills, ?_, h.cells, ?_⟩
  · change d.width + byteLength word = _
    rw [h.width, Slice.stop, Slice.stop, byteLength_append, Nat.add_assoc]
  · have hstarted : (d.read ⟨.word, word⟩).cell ≠ [] := by simp [cell_read_word, hne]
    have hkept := Fills.kept (s := ⟨s.column, s.text ++ word⟩) hfills
    have hstart := h.start
    rw [kept_append, h.fills.kept] at hstart
    rw [kept_append, hkept, if_neg hstarted]
    change some (d.start.getD (.ofNat d.width)) = _
    rw [hstart]
    cases hdone : kept done with
    | cons first more => rfl
    | nil =>
      by_cases hcell : d.cell = []
      · -- nothing but the space before the cell was read
        have htext := h.fills.text
        rw [pending, hcell, List.isEmpty_nil, Bool.not_true, Bool.and_false, if_neg Bool.false_ne_true,
          List.append_nil, List.append_nil] at htext
        rw [if_pos hcell, h.width, Slice.stop, htext]
        rfl
      · rw [if_neg hcell]
        rfl

theorem Reads.read_space (h : d.Reads done s lead) (hspaced : d.spaced = false) :
    (d.read ⟨.space, [' ']⟩).Reads done ⟨s.column, s.text ++ [' ']⟩
      (if d.cell = [] then [' '] else lead) := by
  have hfills := h.fills.read_space hspaced
  refine ⟨hfills, ?_, h.cells, ?_⟩
  · change d.width + byteLength [' '] = _
    rw [h.width, Slice.stop, Slice.stop, byteLength_append, Nat.add_assoc]
  · have hstart := h.start
    rw [kept_append, h.fills.kept] at hstart
    rw [kept_append, Fills.kept (s := ⟨s.column, s.text ++ [' ']⟩) hfills]
    change d.start = (kept done ++ if d.cell = [] then [] else _).head?.map _
    rw [hstart]
    by_cases hcell : d.cell = []
    · rw [if_pos hcell, if_pos hcell]
    · rw [if_neg hcell, if_neg hcell, if_neg hcell]
      rfl

/-- The cells with the one under way are the slices with the one under way. -/
theorem Reads.endCell (h : d.Reads done s lead) :
    d.endCell.cells.reverse = (Robot.kept (done ++ [s])).map fun s => String.ofList s.text := by
  rw [kept_append, h.fills.kept, List.map_append, ← h.cells]
  by_cases hcell : d.cell = [] <;> simp [RowDraft.endCell, hcell]

/-- A wide run ends the slice. -/
theorem Reads.read_separator (h : d.Reads done s lead) (run : List Char) :
    (d.read ⟨.separator, run⟩).Reads (done ++ [s]) ⟨s.stop + byteLength run, []⟩ [] where
  fills := fills_nil rfl rfl
  width := by
    change d.width + byteLength run = _
    rw [h.width]
    rfl
  cells := h.endCell
  start := by
    have hempty : (Slice.mk (s.stop + byteLength run) []).stripped = ⟨_, []⟩ := rfl
    change d.start = _
    rw [kept_append, kept_singleton hempty, if_pos rfl, List.append_nil]
    exact h.start

/-- What the draft gives is the row of the slices. -/
theorem Reads.finish (h : d.Reads done s lead) (hline : d.line = .ofNat number) :
    d.finish = (rowOfSlices number d.indented (kept (done ++ [s]))).map TableRow.row := by
  have hcells := h.endCell
  have hstart := h.start
  unfold RowDraft.finish
  cases hkept : kept (done ++ [s]) with
  | nil =>
    rw [hkept, List.map_nil, List.reverse_eq_nil_iff] at hcells
    simp [hcells, rowOfSlices]
  | cons first more =>
    rw [hkept] at hcells hstart
    have hne : d.endCell.cells ≠ [] := by
      intro hnil
      simp [hnil] at hcells
    simp only [List.isEmpty_iff, hne, if_false, hcells]
    change some (Row.mk d.line (d.start.getD 0) d.indented _) = _
    rw [hline, hstart]
    rfl

/-- Reading the lexemes of a line takes the slices on from where the draft is. -/
theorem Reads.foldl_read (hline : Pieces line) (honline : OnOneLine line) (h : d.Reads done s lead)
    (hnumber : d.line = .ofNat number) (hspaced : d.spaced = true → NotLed isGap line) :
    let e := (lexemes line).foldl RowDraft.read d
    e.finish = (rowOfSlices number e.indented
      (kept (done ++ slicesFrom s (runs (uncommented line))))).map TableRow.row := by
  have hsuffix {a b : List Char} (h : OnOneLine (a ++ b)) : OnOneLine b :=
    fun c hc => h c (List.mem_append_right a hc)
  induction hline generalizing d done s lead with
  | nil =>
    rw [lexemes]
    exact h.finish hnumber
  | @word word rest hne hword hnext hrest ih =>
    have hread := h.read_word hne hword
    rw [lexemes_word hne hword hnext, List.foldl_cons, runs_word hne hword hnext (hsuffix honline),
      slicesFrom, if_neg (by simp [isWide_word hne hword])]
    exact ih (hsuffix honline) hread hnumber fun hspaced => by cases hspaced
  | @space rest hnext hrest ih =>
    have hread := h.read_space (unspaced hspaced)
    have hruns := runs_gaps (List.cons_ne_nil ' ' []) (by simp [isGap]) hnext
    rw [List.singleton_append] at hruns
    rw [lexemes_space hnext, List.foldl_cons, hruns, slicesFrom, if_neg (by decide)]
    exact ih (hsuffix (a := [' ']) honline) hread hnumber fun _ => hnext
  | @separator separator rest hseparator hnext hrest ih =>
    have hread := h.read_separator separator
    rw [lexemes_separator hseparator hnext, List.foldl_cons, runs_gaps hseparator.ne_nil hseparator.1 hnext,
      slicesFrom, if_pos (isWide_iff.mpr hseparator), List.append_cons]
    exact ih (hsuffix honline) hread hnumber fun hspaced => by cases hspaced
  | @comment comment hcomment =>
    have hfinish := h.finish hnumber
    rw [← finish_endCell] at hfinish
    rw [lexemes_comment_line hcomment]
    exact hfinish

/-- Once a word was read, nothing indents the row. -/
theorem indented_foldl_read_of_start (h : d.start.isSome = true) (all : List Lexeme) :
    (all.foldl RowDraft.read d).indented = d.indented := by
  refine (List.foldlRecOn (motive := fun e => e.start.isSome = true ∧ e.indented = d.indented) all
    RowDraft.read ⟨h, rfl⟩ ?_).2
  rintro e ⟨hstart, hindented⟩ lexeme -
  have hnone : e.start.isNone = false := by simpa using hstart
  unfold RowDraft.read
  cases lexeme.kind <;> simp [separate, addWord, RowDraft.endCell, hstart, hindented, hnone]

end RowDraft

/-! ## Rows -/

/-- A row is indented exactly if its line begins with a wide run. -/
theorem indented_of_rowOfLine {number : UInt32} (hline : OnOneLine line)
    (hrow : rowOfLine number line = some row) :
    row.indented = isWide (line.takeWhile isGap) := by
  have hword {d : RowDraft} {word rest : List Char} (hne : word ≠ [])
      (hword : ∀ c ∈ word, isWordChar c = true) (hnext : NotLed isWordChar rest)
      (hindented : d.indented = false)
      (hrow : ((lexemes (word ++ rest)).foldl RowDraft.read d).finish = some row) :
      row.indented = false := by
    rw [lexemes_word hne hword hnext, List.foldl_cons] at hrow
    rw [RowDraft.eq_of_finish hrow]
    exact (RowDraft.indented_foldl_read_of_start rfl _).trans hindented
  cases pieces hline with
  | nil =>
    rw [rowOfLine, lexemes] at hrow
    cases hrow
  | word hne hchars hnext hrest =>
    rw [← List.nil_append (_ ++ _), takeWhile_run (by simp) (notLed_gap_word hne hchars)]
    exact hword hne hchars hnext rfl hrow
  | @space rest hnext hrest =>
    rw [← List.singleton_append, takeWhile_run (by simp [isGap]) hnext]
    rw [rowOfLine, lexemes_space hnext, List.foldl_cons] at hrow
    cases hrest with
    | nil =>
      rw [lexemes] at hrow
      cases hrow
    | word hne hchars hclear hrest => exact hword hne hchars hclear rfl hrow
    | space => exact absurd (hnext ' ' rfl) (by decide)
    | separator hseparator => exact absurd hnext hseparator.not_notLed
    | comment hcomment =>
      rw [lexemes_comment_line hcomment, List.foldl_cons] at hrow
      cases hrow
  | separator hseparator hnext hrest =>
    rw [takeWhile_run hseparator.1 hnext, isWide_iff.mpr hseparator]
    exact indented_of_separator hseparator hnext hrow
  | comment hcomment =>
    rw [rowOfLine, lexemes_comment_line hcomment, List.foldl_cons] at hrow
    cases hrow

/-- The row of a line is the one of the grammar. -/
theorem rowOfLine_eq_tableRow (hline : OnOneLine line) (number : Nat) :
    rowOfLine (.ofNat number) line = (tableRow number line).map TableRow.row := by
  have hrow := (RowDraft.reads_new (.ofNat number)).foldl_read (pieces hline) hline rfl
    fun hspaced => by cases hspaced
  rw [List.nil_append] at hrow
  change rowOfLine (.ofNat number) line = _ at hrow
  rw [tableRow]
  cases hkept : kept (slicesFrom ⟨0, []⟩ (runs (uncommented line))) with
  | nil => rw [hrow, hkept, rowOfSlices, rowOfSlices]
  | cons first more =>
    rw [hkept] at hrow
    have hindented : ((lexemes line).foldl RowDraft.read { line := .ofNat number }).indented =
        isWide (line.takeWhile isGap) := indented_of_rowOfLine hline hrow
    rw [hrow, ← hindented]

theorem rowsFrom_eq_filterMap (h : Lines text) : ∀ number : Nat,
    rowsFrom { line := .ofNat number } (lexemes text) =
      (((physicalLines text).zipIdx number).filterMap fun (line, number) => tableRow number line).map
        TableRow.row := by
  induction h with
  | @last line hline =>
    intro number
    rw [rowsFrom_last hline, physicalLines_last hline, List.zipIdx_singleton,
      rowOfLine_eq_tableRow hline]
    cases hrow : tableRow number line <;> simp [hrow]
  | @line line ending rest hline hending _ ih =>
    intro number
    rw [rowsFrom_line hline hending, physicalLines_line hline hending, List.zipIdx_cons, ih,
      rowOfLine_eq_tableRow hline]
    cases hrow : tableRow number line <;> simp [hrow]

theorem rows_eq_tableRows (text : List Char) : rows text = (tableRows text).map TableRow.row :=
  rowsFrom_eq_filterMap (lines text) 0

theorem mem_tableRows_iff : r ∈ tableRows text ↔
    ∃ number line, (physicalLines text)[number]? = some line ∧ tableRow number line = some r := by
  rw [tableRows, List.mem_filterMap]
  constructor
  · rintro ⟨⟨line, number⟩, hmem, hrow⟩
    exact ⟨number, line, by simpa [List.mem_zipIdx_iff_getElem?] using hmem, hrow⟩
  · rintro ⟨number, line, hline, hrow⟩
    exact ⟨(line, number), by simpa [List.mem_zipIdx_iff_getElem?] using hline, hrow⟩

/-- No cell is empty. -/
theorem empty_notMem_cells (h : row ∈ rows text) : "" ∉ row.cells := by
  rw [rows_eq_tableRows] at h
  obtain ⟨r, hr, rfl⟩ := List.mem_map.mp h
  obtain ⟨number, line, -, hrow⟩ := mem_tableRows_iff.mp hr
  obtain ⟨first, -, rfl⟩ := eq_of_rowOfSlices hrow
  intro hempty
  obtain ⟨s, hs, htext⟩ := List.mem_map.mp hempty
  have hne := (List.mem_filter.mp hs).2
  rw [String.ofList_eq_empty_iff.mp htext] at hne
  cases hne

/-! ## Numbers and columns -/

/-- There is at most one line more than there are bytes, and no line is longer than the text. -/
theorem physicalLines_fit (h : Lines text) :
    (physicalLines text).length ≤ byteLength text + 1 ∧
      ∀ line ∈ physicalLines text, byteLength line ≤ byteLength text := by
  induction h with
  | last hline => simp [physicalLines_last hline]
  | line hline hending _ ih =>
    obtain ⟨hlength, hlines⟩ := ih
    have hpos := LineIndex.byteLength_pos_of_ends hending
    rw [physicalLines_line hline hending, List.length_cons, List.forall_mem_cons]
    simp only [byteLength_append]
    refine ⟨by omega, by omega, fun other hother => ?_⟩
    have := hlines other hother
    omega

/-- A row has the number of its line and a column within it. -/
theorem tableRow_fits (h : tableRow number line = some r) :
    r.number = number ∧ r.column ≤ byteLength line := by
  obtain ⟨first, hfirst, rfl⟩ := eq_of_rowOfSlices h
  obtain ⟨s, hs, rfl⟩ := List.mem_map.mp (List.mem_of_mem_filter hfirst)
  have hstop := stop_of_mem_slicesFrom hs
  rw [runs, List.flatten_splitBy] at hstop
  have hcut := congrArg byteLength (List.takeWhile_append_dropWhile (p := (· != '#')) (l := line))
  rw [byteLength_append] at hcut
  refine ⟨rfl, ?_⟩
  calc s.stripped.column
    _ ≤ s.stop := s.column_stripped_le
    _ ≤ byteLength (uncommented line) := by simpa [Slice.stop, byteLength] using hstop
    _ ≤ byteLength line := by
      rw [← hcut, uncommented]
      exact Nat.le_add_right _ _

/-- Neither the number nor the column of a row exceeds the length of the text. -/
theorem tableRows_fit (h : r ∈ tableRows text) :
    r.number ≤ byteLength text ∧ r.column ≤ byteLength text := by
  obtain ⟨number, line, hline, hsome⟩ := mem_tableRows_iff.mp h
  obtain ⟨hlength, hlines⟩ := physicalLines_fit (lines text)
  obtain ⟨rfl, hcolumn⟩ := tableRow_fits hsome
  obtain ⟨hnumber, -⟩ := List.getElem?_eq_some_iff.mp hline
  have hwidth := hlines line (List.mem_of_getElem? hline)
  omega

/-- Reading a text gives the rows of the grammar, with their numbers and columns in words. The words hold
them as they are wherever the length of the text fits into one. -/
theorem rows_meet_grammar (text : List Char) :
    rows text = (tableRows text).map TableRow.row ∧
      (byteLength text < 2 ^ 32 →
        ∀ r ∈ tableRows text, r.row.number = r.number ∧ r.row.column = r.column) := by
  refine ⟨rows_eq_tableRows text, fun hsmall r hr => ?_⟩
  obtain ⟨hnumber, hcolumn⟩ := tableRows_fit hr
  exact ⟨UInt32.toNat_ofNat_of_lt' (hnumber.trans_lt hsmall),
    UInt32.toNat_ofNat_of_lt' (hcolumn.trans_lt hsmall)⟩

/-- Lines with all line ends, spaces alone and in wide runs, and comments. -/
def gappedText : List Char := " Log in  é\t# note\r\r\n \t#\n\tx ".toList

theorem rows_meet_grammar_gapped :
    byteLength gappedText < 2 ^ 32 ∧
      rows gappedText = [⟨0, 1, false, ["Log in", "é"]⟩, ⟨3, 1, true, ["x"]⟩] ∧
      ∀ r ∈ tableRows gappedText, r.row.number = r.number ∧ r.row.column = r.column := by
  have hsmall : byteLength gappedText < 2 ^ 32 := by decide +kernel
  obtain ⟨hrows, hexact⟩ := rows_meet_grammar gappedText
  refine ⟨hsmall, ?_, hexact hsmall⟩
  rw [hrows]
  decide +kernel

end KeywordIndex.Robot
