import KeywordIndex.Proofs.Robot.Lines

namespace KeywordIndex.Robot

open Text

/-! # Cells as they are read

A cell grows by the words and single spaces that are read (`RowDraft.pending`). Any text without tabs,
comments and wide gaps is read as one cell (`foldl_read_cell`).
-/

variable {d e f : RowDraft} {cs tail word : List Char}

namespace RowDraft

/-! ## The cell under way -/

/-- The cell under way with the space that was read after it. -/
def pending (d : RowDraft) : List Char :=
  d.cell ++ if d.spaced && !d.cell.isEmpty then [' '] else []

theorem pending_of_spaced (h : d.spaced = false) : d.pending = d.cell := by simp [pending, h]

theorem cell_eq_pending (h : d.pending.getLast? ≠ some ' ') : d.cell = d.pending := by
  unfold pending at h ⊢
  split
  · next hspaced => simp [hspaced] at h
  · simp

theorem cell_read_word : (d.read ⟨.word, word⟩).cell = d.pending ++ word := rfl

theorem pending_read_word : (d.read ⟨.word, word⟩).pending = d.pending ++ word :=
  pending_of_spaced rfl

theorem pending_read_space (hcell : d.cell ≠ []) (hspaced : d.spaced = false) :
    (d.read ⟨.space, [' ']⟩).pending = d.pending ++ [' '] := by
  simp [pending, read, hcell, hspaced]

/-- No space was read just before one that stands alone. -/
theorem unspaced {rest : List Char} (h : d.spaced = true → NotLed isGap (' ' :: rest)) :
    d.spaced = false := by
  cases hspaced : d.spaced with
  | false => rfl
  | true => simpa [isGap] using h hspaced ' ' rfl

/-- The draft `e` is `d` after `cs` was read into its cell. -/
structure Grown (d e : RowDraft) (cs : List Char) : Prop where
  pending : e.pending = d.pending ++ cs
  cells : e.cells = d.cells
  indented : e.indented = d.indented
  start : d.start.isSome = true → e.start = d.start

theorem Grown.refl (d : RowDraft) : Grown d d [] where
  pending := (List.append_nil _).symm
  cells := rfl
  indented := rfl
  start _ := rfl

theorem Grown.trans {more : List Char} (hde : Grown d e cs) (hef : Grown e f more) :
    Grown d f (cs ++ more) where
  pending := by rw [hef.pending, hde.pending, List.append_assoc]
  cells := hef.cells.trans hde.cells
  indented := hef.indented.trans hde.indented
  start h := by rw [hef.start (by rw [hde.start h]; exact h), hde.start h]

theorem grown_read_word : Grown d (d.read ⟨.word, word⟩) word where
  pending := pending_read_word
  cells := rfl
  indented := rfl
  start h := by
    obtain ⟨k, hk⟩ := Option.isSome_iff_exists.mp h
    simp [read, addWord, hk]

theorem grown_read_space (hcell : d.cell ≠ []) (hspaced : d.spaced = false) :
    Grown d (d.read ⟨.space, [' ']⟩) [' '] where
  pending := pending_read_space hcell hspaced
  cells := rfl
  indented := rfl
  start _ := rfl

end RowDraft

/-! ## Texts that are cells -/

/-- A text that no separator, comment or line end cuts, without a space at its end. -/
structure IsPlain (cs : List Char) : Prop where
  chars : ∀ c ∈ cs, c ≠ '\t' ∧ c ≠ '\r' ∧ c ≠ '\n' ∧ c ≠ '#'
  narrow : ¬ [' ', ' '] <:+: cs
  last : cs.getLast? ≠ some ' '

/-- A text that may stand in a cell. -/
structure IsCell (cs : List Char) : Prop extends IsPlain cs where
  nonempty : cs ≠ []
  head : cs.head? ≠ some ' '

instance (cs : List Char) : Decidable (IsPlain cs) :=
  decidable_of_iff (cs.all (fun c => c ≠ '\t' ∧ c ≠ '\r' ∧ c ≠ '\n' ∧ c ≠ '#') = true ∧
      ¬ [' ', ' '] <:+: cs ∧ cs.getLast? ≠ some ' ')
    ⟨fun ⟨hchars, hnarrow, hlast⟩ => ⟨by simpa using hchars, hnarrow, hlast⟩,
      fun h => ⟨by simpa using h.chars, h.narrow, h.last⟩⟩

instance (cs : List Char) : Decidable (IsCell cs) :=
  decidable_of_iff (IsPlain cs ∧ cs ≠ [] ∧ cs.head? ≠ some ' ')
    ⟨fun ⟨hplain, hne, hhead⟩ => ⟨hplain, hne, hhead⟩, fun h => ⟨h.toIsPlain, h.nonempty, h.head⟩⟩

theorem IsPlain.of_append {a b : List Char} (h : IsPlain (a ++ b)) : IsPlain b where
  chars c hc := h.chars c (List.mem_append_right a hc)
  narrow hpair := h.narrow (hpair.trans (List.suffix_append a b).isInfix)
  last hlast := h.last (by rw [List.getLast?_append, hlast]; rfl)

theorem IsPlain.onOneLine (h : IsPlain cs) : OnOneLine cs := by
  intro c hc
  obtain ⟨-, hreturn, hfeed, -⟩ := h.chars c hc
  simp [isLineEnd, hreturn, hfeed]

theorem IsPlain.no_separator {separator rest : List Char} (h : IsPlain (separator ++ rest)) :
    ¬ IsSeparator separator := by
  intro hseparator
  have hspace (c : Char) (hc : c ∈ separator) : c = ' ' := by
    have hgap := hseparator.1 c hc
    simpa [isGap, (h.chars c (List.mem_append_left rest hc)).1] using hgap
  rcases hseparator.2 with htab | hwide
  · exact (h.chars '\t' (by simp [htab])).1 rfl
  · -- two gaps that are no tabs are two spaces
    rcases separator with _ | ⟨a, _ | ⟨b, more⟩⟩
    · simp at hwide
    · simp at hwide
    · apply h.narrow
      rw [hspace a (by simp), hspace b (by simp)]
      exact ⟨[], more ++ rest, by simp⟩

/-- A plain text is read into the cell under way. -/
theorem foldl_read_plain (h : Pieces cs) (hplain : IsPlain cs) (htail : NotLed isWordChar tail)
    (hcell : d.cell ≠ []) (hspaced : d.spaced = true → NotLed isGap cs) :
    ∃ e, RowDraft.Grown d e cs ∧
      (lexemes (cs ++ tail)).foldl RowDraft.read d = (lexemes tail).foldl RowDraft.read e := by
  induction h generalizing d with
  | nil => exact ⟨d, .refl d, rfl⟩
  | @word word rest hne hword hnext _ ih =>
    have hgrown : RowDraft.Grown d (d.read ⟨.word, word⟩) word := RowDraft.grown_read_word
    have hcell : (d.read ⟨.word, word⟩).cell ≠ [] := by simp [RowDraft.cell_read_word, hne]
    obtain ⟨e, he, hfold⟩ := ih hplain.of_append hcell fun hspaced => by cases hspaced
    refine ⟨e, hgrown.trans he, ?_⟩
    rw [List.append_assoc, lexemes_word hne hword (hnext.append htail), List.foldl_cons, hfold]
  | @space rest hnext _ ih =>
    have hunspaced := RowDraft.unspaced hspaced
    have hgrown := RowDraft.grown_read_space hcell hunspaced
    have hcell : (d.read ⟨.space, [' ']⟩).cell ≠ [] := hcell
    obtain ⟨e, he, hfold⟩ := ih (@IsPlain.of_append [' '] rest hplain) hcell fun _ => hnext
    refine ⟨e, hgrown.trans he, ?_⟩
    -- the text does not end with this space, so what comes next is of the text
    have hne : rest ≠ [] := by
      rintro rfl
      exact hplain.last rfl
    rw [List.cons_append, lexemes_space (hnext.append_of_ne_nil hne tail), List.foldl_cons, hfold]
  | separator hseparator => exact absurd hseparator hplain.no_separator
  | comment => exact absurd rfl (hplain.chars '#' List.mem_cons_self).2.2.2

/-- A cell is read as it is. -/
theorem foldl_read_cell (h : IsCell cs) (htail : NotLed isWordChar tail) (hcell : d.cell = []) :
    ∃ e : RowDraft, e.cell = cs ∧ e.cells = d.cells ∧ e.indented = d.indented ∧
      e.start = some (d.start.getD (.ofNat d.width)) ∧
      (lexemes (cs ++ tail)).foldl RowDraft.read d = (lexemes tail).foldl RowDraft.read e := by
  have hplain := h.toIsPlain
  obtain ⟨hne, hhead⟩ : cs ≠ [] ∧ cs.head? ≠ some ' ' := ⟨h.nonempty, h.head⟩
  -- a cell begins with a word
  cases pieces hplain.onOneLine with
  | nil => exact absurd rfl hne
  | @word word rest hword hchars hnext hrest =>
    have hstarted : (d.read ⟨.word, word⟩).cell ≠ [] := by simp [RowDraft.cell_read_word, hword]
    obtain ⟨e, he, hfold⟩ := foldl_read_plain hrest hplain.of_append htail hstarted
      fun hspaced => by cases hspaced
    have hpending : e.pending = word ++ rest := by
      rw [he.pending, RowDraft.pending_read_word]
      simp [RowDraft.pending, hcell]
    refine ⟨e, ?_, he.cells, he.indented, he.start rfl, ?_⟩
    · rw [RowDraft.cell_eq_pending (by rw [hpending]; exact hplain.last), hpending]
    · rw [List.append_assoc, lexemes_word hword hchars (hnext.append htail), List.foldl_cons, hfold]
  | space => exact absurd rfl hhead
  | separator hseparator => exact absurd hseparator hplain.no_separator
  | comment => exact absurd rfl (hplain.chars '#' List.mem_cons_self).2.2.2

end KeywordIndex.Robot
