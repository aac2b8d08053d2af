import KeywordIndex.Robot.Row
import Mathlib

namespace KeywordIndex.Robot

open Text

/-! # Rows line by line

A line is cut into words, single spaces, separators and a comment (`pieces`), and no lexeme reaches past
its end (`lexemes_append`). So a table file is read line by line: each line gives at most one row,
numbered by the line (`rowsFrom_line`). `Pieces` and `Lines` are the inductions over a line and over a
text.
-/

variable {c : Char} {p : Char → Bool} {cs line ending rest tail : List Char}

/-! ## Lexemes of a line -/

/-- A run of elements that satisfy `p` ends before a list that does not begin with one. -/
theorem takeWhile_run {α : Type} {p : α → Bool} {run rest : List α} (hrun : ∀ x ∈ run, p x = true)
    (hrest : ∀ y, rest.head? = some y → p y = false) : (run ++ rest).takeWhile p = run := by
  rw [List.takeWhile_append_of_pos hrun]
  cases rest with
  | nil => simp
  | cons y rest => simp [hrest y rfl]

/-- The text does not begin with a character that satisfies `p`. -/
def NotLed (p : Char → Bool) (cs : List Char) : Prop := ∀ c, cs.head? = some c → p c = false

theorem notLed_nil : NotLed p [] := by
  intro c hc
  cases hc

theorem NotLed.append (hcs : NotLed p cs) (htail : NotLed p tail) : NotLed p (cs ++ tail) := by
  cases cs with
  | nil => exact htail
  | cons c cs => exact hcs

theorem NotLed.append_of_ne_nil (h : NotLed p cs) (hne : cs ≠ []) (tail : List Char) :
    NotLed p (cs ++ tail) := by
  cases cs with
  | nil => exact absurd rfl hne
  | cons c cs => exact h

theorem NotLed.of_append (h : NotLed p (cs ++ tail)) : NotLed p cs := by
  intro c hc
  exact h c (by rw [List.head?_append, hc]; rfl)

theorem notLed_dropWhile (p : Char → Bool) (cs : List Char) : NotLed p (cs.dropWhile p) := by
  intro c hc
  have hne : cs.dropWhile p ≠ [] := by
    intro hnil
    simp [hnil] at hc
  rw [List.head?_eq_some_head hne] at hc
  rw [← Option.some.inj hc]
  simpa using List.head_dropWhile_not p hne

/-- No character ends a line. -/
def OnOneLine (cs : List Char) : Prop := ∀ c ∈ cs, isLineEnd c = false

theorem onOneLine_nil : OnOneLine [] := by
  intro c hc
  cases hc

theorem OnOneLine.append (hcs : OnOneLine cs) (htail : OnOneLine tail) : OnOneLine (cs ++ tail) := by
  intro c hc
  rcases List.mem_append.mp hc with hc | hc
  · exact hcs c hc
  · exact htail c hc

/-- A tab, or at least two spaces and tabs. -/
def IsSeparator (cs : List Char) : Prop := (∀ c ∈ cs, isGap c = true) ∧ (cs = ['\t'] ∨ 2 ≤ cs.length)

/-- A line is words, single spaces and separators, and at last a comment. What follows a piece does not
belong to it. -/
inductive Pieces : List Char → Prop where
  | nil : Pieces []
  | word {word rest : List Char} (hne : word ≠ []) (hword : ∀ c ∈ word, isWordChar c = true)
      (hnext : NotLed isWordChar rest) (hrest : Pieces rest) : Pieces (word ++ rest)
  | space {rest : List Char} (hnext : NotLed isGap rest) (hrest : Pieces rest) : Pieces (' ' :: rest)
  | separator {separator rest : List Char} (hseparator : IsSeparator separator)
      (hnext : NotLed isGap rest) (hrest : Pieces rest) : Pieces (separator ++ rest)
  | comment {comment : List Char} (hcomment : OnOneLine comment) : Pieces ('#' :: comment)

/-- The pieces of a line that begins with spaces or tabs. -/
theorem Pieces.gaps {gaps : List Char} (hne : gaps ≠ []) (hgaps : ∀ c ∈ gaps, isGap c = true)
    (hnext : NotLed isGap rest) (hrest : Pieces rest) : Pieces (gaps ++ rest) := by
  by_cases hspace : gaps = [' ']
  · subst hspace
    exact .space hnext hrest
  · refine .separator ⟨hgaps, ?_⟩ hnext hrest
    match gaps with
    | [c] =>
      have hgap := hgaps c (List.mem_singleton_self c)
      simp only [isGap, Bool.or_eq_true, beq_iff_eq] at hgap
      rcases hgap with rfl | rfl
      · exact absurd rfl hspace
      · exact .inl rfl
    | _ :: _ :: _ => exact .inr (by simp)

/-- Every line is cut into pieces. -/
theorem pieces (h : OnOneLine line) : Pieces line := by
  -- the first piece is the longest run of the kind of the first character; the rest is shorter
  induction hlength : line.length using Nat.strong_induction_on generalizing line with
  | _ n ih =>
    cases line with
    | nil => exact .nil
    | cons c cs =>
      have hrest (p : Char → Bool) : Pieces (cs.dropWhile p) := by
        have hsuffix := List.dropWhile_suffix (l := cs) p
        refine ih _ ?_ (fun d hd => h d (List.mem_cons_of_mem _ (hsuffix.mem hd))) rfl
        have := hsuffix.length_le
        simp only [List.length_cons] at hlength
        omega
      have hrun {p : Char → Bool} (hc : p c = true) : ∀ d ∈ c :: cs.takeWhile p, p d = true := by
        intro d hd
        rcases List.mem_cons.mp hd with rfl | hd
        · exact hc
        · exact List.mem_takeWhile_imp hd
      by_cases hgap : isGap c = true
      · have hgaps := Pieces.gaps (List.cons_ne_nil c _) (hrun hgap) (notLed_dropWhile isGap cs) (hrest _)
        rwa [List.cons_append, List.takeWhile_append_dropWhile] at hgaps
      · by_cases hsharp : c = '#'
        · subst hsharp
          exact .comment fun d hd => h d (List.mem_cons_of_mem _ hd)
        · have hword : isWordChar c = true := by
            simp [isWordChar, hgap, hsharp, h c List.mem_cons_self]
          have hwords := Pieces.word (List.cons_ne_nil c _) (hrun hword) (notLed_dropWhile isWordChar cs)
            (hrest _)
          rwa [List.cons_append, List.takeWhile_append_dropWhile] at hwords

/-- The first lexeme is what it is said to be if what it leaves is the rest. -/
theorem lexemes_first {kind : LexemeKind} (h : firstLexeme c (cs ++ rest) = (kind, cs.length)) :
    lexemes (c :: (cs ++ rest)) = ⟨kind, c :: cs⟩ :: lexemes rest := by
  rw [lexemes, h]
  simp

theorem lexemes_word {word : List Char} (hne : word ≠ []) (hword : ∀ c ∈ word, isWordChar c = true)
    (hnext : NotLed isWordChar rest) : lexemes (word ++ rest) = ⟨.word, word⟩ :: lexemes rest := by
  cases word with
  | nil => exact absurd rfl hne
  | cons c cs =>
    have hc := hword c List.mem_cons_self
    simp only [isWordChar, Bool.not_eq_true', Bool.or_eq_false_iff, beq_eq_false_iff_ne] at hc
    have hcs := takeWhile_run (fun d hd => hword d (List.mem_cons_of_mem _ hd)) hnext
    exact lexemes_first (by simp [firstLexeme, hc, hcs])

theorem lexemes_gaps {gaps : List Char} (hne : gaps ≠ []) (hgaps : ∀ c ∈ gaps, isGap c = true)
    (hnext : NotLed isGap rest) : lexemes (gaps ++ rest) =
      ⟨if gaps = [' '] then .space else .separator, gaps⟩ :: lexemes rest := by
  cases gaps with
  | nil => exact absurd rfl hne
  | cons c cs =>
    have hc := hgaps c List.mem_cons_self
    have hcs := takeWhile_run (fun d hd => hgaps d (List.mem_cons_of_mem _ hd)) hnext
    have hend : isLineEnd c = false := by
      simp only [isGap, Bool.or_eq_true, beq_iff_eq] at hc
      rcases hc with rfl | rfl <;> rfl
    exact lexemes_first (by simp [firstLexeme, hc, hcs, hend])

theorem lexemes_space (hnext : NotLed isGap rest) :
    lexemes (' ' :: rest) = ⟨.space, [' ']⟩ :: lexemes rest :=
  lexemes_gaps (List.cons_ne_nil ' ' []) (by simp [isGap]) hnext

theorem lexemes_separator {separator : List Char} (h : IsSeparator separator)
    (hnext : NotLed isGap rest) :
    lexemes (separator ++ rest) = ⟨.separator, separator⟩ :: lexemes rest := by
  have hne : separator ≠ [] ∧ separator ≠ [' '] := by
    constructor <;>
    · rintro rfl
      rcases h.2 with h | h <;> simp at h
  rw [lexemes_gaps hne.1 h.1 hnext, if_neg hne.2]

theorem lexemes_comment {comment : List Char} (h : OnOneLine comment)
    (hnext : NotLed (!isLineEnd ·) rest) :
    lexemes ('#' :: (comment ++ rest)) = ⟨.comment, '#' :: comment⟩ :: lexemes rest := by
  have hcs := takeWhile_run (fun d hd => by simpa using h d hd) hnext
  exact lexemes_first (by simp [firstLexeme, show isLineEnd '#' = false from rfl, isGap, hcs])

/-- A comment takes the rest of its line. -/
theorem lexemes_comment_line {comment : List Char} (h : OnOneLine comment) :
    lexemes ('#' :: comment) = [⟨.comment, '#' :: comment⟩] := by
  have hcomment := lexemes_comment h notLed_nil
  rw [List.append_nil] at hcomment
  rw [hcomment, lexemes]

/-- The end of a line is the end of its last lexeme. -/
theorem lexemes_append (h : Pieces line) (hnext : NotLed (!isLineEnd ·) tail) :
    lexemes (line ++ tail) = lexemes line ++ lexemes tail := by
  have hclear {p : Char → Bool} (hp : ∀ c, isLineEnd c = true → p c = false) : NotLed p tail := by
    intro c hc
    exact hp c (by simpa using hnext c hc)
  have hgap : NotLed isGap tail := by
    apply hclear
    intro c hc
    simp only [isLineEnd, Bool.or_eq_true, beq_iff_eq] at hc
    rcases hc with rfl | rfl <;> rfl
  have hword : NotLed isWordChar tail := hclear fun c hc => by simp [isWordChar, hc]
  induction h with
  | nil => simp [lexemes]
  | word hne hchars hrest _ ih =>
    rw [List.append_assoc, lexemes_word hne hchars (hrest.append hword), lexemes_word hne hchars hrest, ih]
    rfl
  | space hrest _ ih =>
    rw [List.cons_append, lexemes_space (hrest.append hgap), lexemes_space hrest, ih]
    rfl
  | separator hseparator hrest _ ih =>
    rw [List.append_assoc, lexemes_separator hseparator (hrest.append hgap),
      lexemes_separator hseparator hrest, ih]
    rfl
  | @comment comment hcomment =>
    rw [List.cons_append, lexemes_comment hcomment hnext, lexemes_comment_line hcomment]
    rfl

/-! ## Line ends -/

/-- `ending` ends a line before `rest`: a carriage return ends one only if no line feed follows. -/
def Ends (ending rest : List Char) : Prop :=
  ending = ['\n'] ∨ ending = ['\r', '\n'] ∨ ending = ['\r'] ∧ rest.head? ≠ some '\n'

theorem lexemes_ending (h : Ends ending rest) :
    lexemes (ending ++ rest) = ⟨.lineEnd, ending⟩ :: lexemes rest := by
  rcases h with rfl | rfl | ⟨rfl, hrest⟩
  · simp [lexemes, firstLexeme, isLineEnd]
  · simp [lexemes, firstLexeme, isLineEnd]
  · simp [lexemes, firstLexeme, isLineEnd, hrest]

theorem Ends.notLed (h : Ends ending rest) : NotLed (!isLineEnd ·) (ending ++ rest) := by
  intro c hc
  rcases h with rfl | rfl | ⟨rfl, -⟩ <;>
  · obtain rfl := Option.some.inj hc
    rfl

theorem lexemes_line (hline : OnOneLine line) (h : Ends ending rest) :
    lexemes (line ++ (ending ++ rest)) = lexemes line ++ ⟨.lineEnd, ending⟩ :: lexemes rest := by
  rw [lexemes_append (pieces hline) h.notLed, lexemes_ending h]

/-- A text is a single line, or a line with its end before a text. -/
inductive Lines : List Char → Prop where
  | last {line : List Char} (hline : OnOneLine line) : Lines line
  | line {line ending rest : List Char} (hline : OnOneLine line) (hending : Ends ending rest)
      (hrest : Lines rest) : Lines (line ++ (ending ++ rest))

theorem Lines.cons (hc : isLineEnd c = false) (h : Lines cs) : Lines (c :: cs) := by
  have hcons {line : List Char} (hline : OnOneLine line) : OnOneLine (c :: line) :=
    List.forall_mem_cons.mpr ⟨hc, hline⟩
  cases h with
  | last hline => exact .last (hcons hline)
  | line hline hending hrest => exact .line (hcons hline) hending hrest

/-- Every text is cut into lines. -/
theorem lines (cs : List Char) : Lines cs := by
  -- a line feed after a carriage return is taken with it, so the rest may be shorter by two
  induction hlength : cs.length using Nat.strong_induction_on generalizing cs with
  | _ n ih =>
    cases cs with
    | nil => exact .last onOneLine_nil
    | cons c rest =>
      have hrest : Lines rest := ih rest.length (by simp [← hlength]) rest rfl
      cases hc : isLineEnd c with
      | false => exact hrest.cons hc
      | true =>
        simp only [isLineEnd, Bool.or_eq_true, beq_iff_eq] at hc
        rcases hc with rfl | rfl
        · exact .line onOneLine_nil (Or.inl rfl) hrest
        · by_cases hfeed : rest.head? = some '\n'
          · obtain ⟨after, rfl⟩ : ∃ after, rest = '\n' :: after := by
              cases rest with
              | nil => cases hfeed
              | cons d after => exact ⟨after, by rw [Option.some.inj hfeed]⟩
            have hshorter : after.length < n := by
              simp only [List.length_cons] at hlength
              omega
            have hafter : Lines after := ih after.length hshorter after rfl
            exact .line onOneLine_nil (Or.inr (Or.inl rfl)) hafter
          · exact .line onOneLine_nil (Or.inr (Or.inr ⟨rfl, hfeed⟩)) hrest

/-! ## The row of a line -/

/-- The row that a line gives. -/
def rowOfLine (number : UInt32) (line : List Char) : Option Row :=
  ((lexemes line).foldl RowDraft.read { line := number }).finish

@[simp] theorem RowDraft.line_read (d : RowDraft) (lexeme : Lexeme) :
    (d.read lexeme).line = d.line := by
  unfold read
  cases lexeme.kind <;> rfl

theorem RowDraft.line_foldl_read (all : List Lexeme) (d : RowDraft) :
    (all.foldl read d).line = d.line := by
  induction all generalizing d with
  | nil => rfl
  | cons lexeme rest ih => rw [List.foldl_cons, ih, line_read]

/-- A row is the draft with the cell under way finished. -/
theorem RowDraft.eq_of_finish {d : RowDraft} {row : Row} (h : d.finish = some row) :
    row = ⟨d.line, d.start.getD 0, d.indented, d.endCell.cells.reverse⟩ := by
  unfold finish at h
  simp only at h
  split at h
  · cases h
  · exact (Option.some.inj h).symm

theorem line_of_rowOfLine {number : UInt32} {row : Row} (h : rowOfLine number line = some row) :
    row.line = number := by
  rw [RowDraft.eq_of_finish h]
  exact RowDraft.line_foldl_read _ _

/-- A number of a line that fits into the word is kept. -/
theorem number_of_rowOfLine {number : Nat} {row : Row} (hsmall : number < 2 ^ 32)
    (h : rowOfLine (.ofNat number) line = some row) : row.number = number := by
  rw [Row.number, line_of_rowOfLine h, UInt32.toNat_ofNat_of_lt' hsmall]

/-- No lexeme of a line ends it. -/
theorem kinds_of_line (h : Pieces line) : ∀ lexeme ∈ lexemes line, lexeme.kind ≠ .lineEnd := by
  induction h with
  | nil => simp [lexemes]
  | word hne hchars hrest _ ih =>
    rw [lexemes_word hne hchars hrest, List.forall_mem_cons]
    exact ⟨by simp, ih⟩
  | space hrest _ ih =>
    rw [lexemes_space hrest, List.forall_mem_cons]
    exact ⟨by simp, ih⟩
  | separator hseparator hrest _ ih =>
    rw [lexemes_separator hseparator hrest, List.forall_mem_cons]
    exact ⟨by simp, ih⟩
  | comment hcomment => simp [lexemes_comment_line hcomment]

theorem rowsFrom_append {all : List Lexeme} (h : ∀ lexeme ∈ all, lexeme.kind ≠ .lineEnd) (d : RowDraft)
    (more : List Lexeme) : rowsFrom d (all ++ more) = rowsFrom (all.foldl RowDraft.read d) more := by
  induction all generalizing d with
  | nil => rfl
  | cons lexeme rest ih =>
    rw [List.cons_append, rowsFrom, if_neg (h lexeme List.mem_cons_self),
      ih fun other hother => h other (List.mem_cons_of_mem _ hother)]
    rfl

theorem rowsFrom_last (h : OnOneLine line) (number : UInt32) :
    rowsFrom { line := number } (lexemes line) = (rowOfLine number line).toList := by
  have hrows := rowsFrom_append (kinds_of_line (pieces h)) { line := number } []
  rwa [List.append_nil] at hrows

/-- A line gives its row, and the lines after it are read as if there were none before. -/
theorem rowsFrom_line (hline : OnOneLine line) (hending : Ends ending rest) (number : Nat) :
    rowsFrom { line := .ofNat number } (lexemes (line ++ (ending ++ rest))) =
      (rowOfLine (.ofNat number) line).toList ++
        rowsFrom { line := .ofNat (number + 1) } (lexemes rest) := by
  rw [lexemes_line hline hending, rowsFrom_append (kinds_of_line (pieces hline)), rowsFrom,
    if_pos rfl, RowDraft.line_foldl_read, UInt32.ofNat_add]
  rfl

end KeywordIndex.Robot
