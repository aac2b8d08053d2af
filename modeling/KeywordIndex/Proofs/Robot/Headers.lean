import KeywordIndex.Proofs.Robot.Grammar
import KeywordIndex.Proofs.Text.Words

namespace KeywordIndex.Robot

open Text

/-! # Headers with gaps

A header is stars, the words of a name and stars, with spaces and tabs around the words. Its name is read
with any spacing, but from the first cell of its row, and the cell ends at the first wide gap
(`HeaderLine.exists_row`). So the line starts a section of its name exactly if no gap before a word is wide
(`header_starts_iff`).
-/

variable {row : Row} {rs before after : List Row} {s : Section} {kind : SectionKind} {text : List Char}
variable {r : TableRow} {number : Nat} {line cell tail word gap a b : List Char} {ws : List (List Char)}

/-! ## The section of a header -/

theorem takeWhile_append_stop {α : Type} {p : α → Bool} {x : α} (hx : p x = false) (xs ys : List α) :
    (xs ++ x :: ys).takeWhile p = xs.takeWhile p := by
  induction xs with
  | nil => rw [List.nil_append, List.takeWhile_cons_of_neg (by simp [hx]), List.takeWhile_nil]
  | cons y xs ih => rw [List.cons_append, List.takeWhile_cons, List.takeWhile_cons, ih]

/-- A header ends the section before it and starts one. -/
theorem sections_append_header (h : row.header? = some kind) (before after : List Row) :
    sections (before ++ row :: after) =
      sections before ++ ⟨kind, after.takeWhile (·.header?.isNone)⟩ :: sections after := by
  induction before with
  | nil => simp [sections, h]
  | cons other before ih =>
    rw [List.cons_append, sections, sections, ih]
    cases other.header? with
    | none => rfl
    | some opened =>
      simp only
      rw [takeWhile_append_stop (by simp [h]), List.cons_append]

/-- There is a section for each header. -/
theorem length_sections (rs : List Row) : (sections rs).length = rs.countP (·.header?.isSome) := by
  induction rs with
  | nil => rfl
  | cons row rest ih =>
    rw [sections]
    cases hheader : row.header? with
    | none => simp [ih, hheader]
    | some kind => simp [ih, hheader]

/-- A row is the header of the section that stands between those of the rows before it and those of the rows
after it. -/
theorem sections_between_iff : sections (before ++ row :: after) = sections before ++ s :: sections after ↔
    row.header? = some s.kind ∧ s.rows = after.takeWhile (·.header?.isNone) := by
  constructor
  · intro hsections
    cases hheader : row.header? with
    | none =>
      -- there would be one section more than there are headers
      have hlength := congrArg List.length hsections
      simp [length_sections, hheader] at hlength
    | some kind =>
      rw [sections_append_header hheader] at hsections
      obtain rfl := (List.cons.inj (List.append_cancel_left hsections)).1
      exact ⟨rfl, rfl⟩
  · rintro ⟨hheader, hrows⟩
    rw [sections_append_header hheader, ← hrows]

/-- The row of the grammar is the header of the section `s`: before `s` are the sections of the rows before
it, and after `s` those of the rows after it. -/
def Opens (text : List Char) (r : TableRow) (s : Section) : Prop :=
  ∃ before after, tableRows text = before ++ r :: after ∧
    sections (rows text) =
      sections (before.map TableRow.row) ++ s :: sections (after.map TableRow.row)

theorem opens_iff : Opens text r s ↔ ∃ before after, tableRows text = before ++ r :: after ∧
    r.row.header? = some s.kind ∧ s.rows = (after.map TableRow.row).takeWhile (·.header?.isNone) := by
  refine exists_congr fun before => exists_congr fun after => and_congr_right fun hrows => ?_
  rw [rows_eq_tableRows, hrows, List.map_append, List.map_cons, sections_between_iff]

/-- The line is the header of the section `s`. -/
def Heads (text : List Char) (number : Nat) (s : Section) : Prop :=
  ∃ r, Opens text r s ∧ r.number = number

/-- The line is the header of a section of the given kind. -/
def StartsSection (text : List Char) (number : Nat) (kind : SectionKind) : Prop :=
  ∃ s, Heads text number s ∧ s.kind = kind

theorem startsSection_iff (hline : (physicalLines text)[number]? = some line) :
    StartsSection text number kind ↔ ∃ r, tableRow number line = some r ∧ r.row.header? = some kind := by
  constructor
  · rintro ⟨s, ⟨r, hopens, rfl⟩, rfl⟩
    obtain ⟨before, after, hrows, hheader, -⟩ := opens_iff.mp hopens
    have hmem : r ∈ tableRows text := by simp [hrows]
    obtain ⟨number, other, hother, hrow⟩ := mem_tableRows_iff.mp hmem
    obtain ⟨rfl, -⟩ := tableRow_fits hrow
    obtain rfl := Option.some.inj (hother.symm.trans hline)
    exact ⟨r, hrow, hheader⟩
  · rintro ⟨r, hrow, hheader⟩
    obtain ⟨before, after, hrows⟩ :=
      List.append_of_mem (mem_tableRows_iff.mpr ⟨number, line, hline, hrow⟩)
    refine ⟨⟨kind, (after.map TableRow.row).takeWhile (·.header?.isNone)⟩,
      ⟨r, ?_, (tableRow_fits hrow).1⟩, rfl⟩
    exact opens_iff.mpr ⟨before, after, hrows, hheader, rfl⟩

/-! ## Words in a cell -/

theorem isCell_word (hne : word ≠ []) (hword : ∀ c ∈ word, isWordChar c = true) : IsCell word := by
  have hspace : ' ' ∉ word := fun hmem => absurd (hword ' ' hmem) (by decide)
  refine ⟨⟨fun c hc => ?_, fun hpair => ?_, fun hlast => ?_⟩, hne, fun hhead => ?_⟩
  · have hc := hword c hc
    refine ⟨?_, ?_, ?_, ?_⟩ <;> rintro rfl <;> exact absurd hc (by decide)
  · exact hspace (hpair.subset List.mem_cons_self)
  · exact hspace (List.mem_of_getLast? hlast)
  · exact hspace (List.mem_of_mem_head? hhead)

/-- Two spaces come together only if the one text ends with a space and the other begins with one. -/
theorem narrow_append (ha : ¬ [' ', ' '] <:+: a) (hb : ¬ [' ', ' '] <:+: b)
    (h : a.getLast? ≠ some ' ' ∨ b.head? ≠ some ' ') : ¬ [' ', ' '] <:+: a ++ b := by
  rw [List.infix_append_iff_ne_nil]
  rintro (hpair | hpair | ⟨left, right, hleft, hright, hpair, hends, hbegins⟩)
  · exact ha hpair
  · exact hb hpair
  · obtain ⟨rfl, rfl⟩ : left = [' '] ∧ right = [' '] := by
      rcases left with _ | ⟨c, _ | ⟨d, left⟩⟩
      · exact absurd rfl hleft
      · simpa [eq_comm] using hpair
      · simp [hright] at hpair
    rcases h with h | h
    · obtain ⟨front, rfl⟩ := hends
      exact h List.getLast?_concat
    · obtain ⟨back, rfl⟩ := hbegins
      exact h rfl

/-- Cells with at most a space between them are a cell. -/
theorem IsCell.append (ha : IsCell a) (hb : IsCell b) (hgap : gap = [] ∨ gap = [' ']) :
    IsCell (a ++ (gap ++ b)) := by
  have hnarrow : ¬ [' ', ' '] <:+: gap ++ b := by
    refine narrow_append ?_ hb.narrow (.inr hb.head)
    rcases hgap with rfl | rfl <;> decide
  refine ⟨⟨fun c hc => ?_, narrow_append ha.narrow hnarrow (.inl ha.last), ?_⟩, ?_, ?_⟩
  · rcases List.mem_append.mp hc with hc | hc
    · exact ha.chars c hc
    · rcases List.mem_append.mp hc with hc | hc
      · rcases hgap with rfl | rfl
        · cases hc
        · rw [List.mem_singleton.mp hc]
          decide
      · exact hb.chars c hc
  · rw [← List.append_assoc, List.getLast?_append_of_ne_nil _ hb.nonempty]
    exact hb.last
  · exact List.append_ne_nil_of_left_ne_nil ha.nonempty _
  · rw [List.head?_append_of_ne_nil _ ha.nonempty]
    exact ha.head

/-! ## The first cell of a line -/

/-- A cell ends before the text: there is nothing but a space, or there is a separator. -/
inductive EndsCell : List Char → Prop where
  | nil : EndsCell []
  | space : EndsCell [' ']
  | separator {separator rest : List Char} (hseparator : IsSeparator separator)
      (hnext : NotLed isGap rest) : EndsCell (separator ++ rest)

theorem EndsCell.notLed_word (h : EndsCell tail) : NotLed isWordChar tail := by
  intro c hc
  cases h with
  | nil => cases hc
  | space =>
    obtain rfl := Option.some.inj hc
    rfl
  | separator hseparator =>
    rw [List.head?_append_of_ne_nil _ hseparator.ne_nil] at hc
    simp [isWordChar, hseparator.1 c (List.mem_of_mem_head? hc)]

namespace RowDraft

variable {d : RowDraft} {start : UInt32}

/-- Where a cell ends, the first cell of the draft is finished as it is. -/
theorem settled_of_endsCell (h : EndsCell tail) (hcells : d.cells = []) (hcell : d.cell ≠ [])
    (hstart : d.start = some start) :
    ∃ e : RowDraft, ((lexemes tail).foldl RowDraft.read d).finish = e.finish ∧
      e.Settled (String.ofList d.cell) start ∧ e.indented = d.indented := by
  cases h with
  | nil =>
    rw [lexemes, List.foldl_nil]
    exact ⟨d.endCell, finish_endCell.symm, settled_endCell hcells hcell hstart, rfl⟩
  | space =>
    have hsettled := settled_endCell (d := d.read ⟨.space, [' ']⟩) hcells hcell hstart
    rw [lexemes_space notLed_nil, lexemes, List.foldl_cons, List.foldl_nil]
    exact ⟨_, finish_endCell.symm, hsettled, rfl⟩
  | @separator separator rest hseparator hnext =>
    have hsettled := settled_read_end ⟨.separator, separator⟩ (.inl rfl) hcells hcell hstart
    rw [lexemes_separator hseparator hnext, List.foldl_cons]
    refine ⟨_, rfl, hsettled.foldl_read _, ?_⟩
    -- the column is known, so the separator indents nothing
    rw [indented_foldl_read_of_start (by simp [hsettled.start])]
    simp [RowDraft.read, separate, RowDraft.endCell, hstart]

theorem Settled.exists_row {first : String} (h : d.Settled first start) : ∃ row, d.finish = some row := by
  have hne : d.endCell.cells ≠ [] := by
    intro hnil
    have hcells := h.endCell.cells
    rw [hnil] at hcells
    cases hcells
  simp [RowDraft.finish, hne]

end RowDraft

/-- A line that begins with a cell has it as the first cell of its row. -/
theorem tableRow_cell (hcell : IsCell cell) (htail : EndsCell tail) (hline : OnOneLine tail)
    (number : Nat) : ∃ r, tableRow number (cell ++ tail) = some r ∧
      r.row.first = String.ofList cell ∧ r.indented = false := by
  obtain ⟨d, hread, hcells, hindented, hstart, hfold⟩ :=
    foldl_read_cell (d := { line := .ofNat number }) hcell htail.notLed_word rfl
  have hstarted : d.cell ≠ [] := by
    rw [hread]
    exact hcell.nonempty
  obtain ⟨e, hfinish, hsettled, hplain⟩ := RowDraft.settled_of_endsCell htail hcells hstarted hstart
  obtain ⟨row, hrow⟩ := hsettled.exists_row
  have hline : (tableRow number (cell ++ tail)).map TableRow.row = some row := by
    rw [← rowOfLine_eq_tableRow (hcell.onOneLine.append hline), rowOfLine, hfold, hfinish, hrow]
  obtain ⟨r, hsome, rfl⟩ := Option.map_eq_some_iff.mp hline
  refine ⟨r, hsome, ?_, ?_⟩
  · rw [(hsettled.finish hrow).1, hread]
  · have hkept : r.row.indented = e.indented := by rw [RowDraft.eq_of_finish hrow]
    exact hkept.trans (hplain.trans hindented)

/-! ## The name in a header -/

namespace SectionKind

/-- The name of a header is found within the stars and blanks around it, and read in lowercase. -/
theorem ofHeader?_framed {front back : List Char} (hfront : ∀ c ∈ front, isFrame c = true)
    (hback : ∀ c ∈ back, isFrame c = true)
    (hwords : ∀ word ∈ ws, word ≠ [] ∧ ∀ c ∈ word, isFrame c = false) :
    ofHeader? (String.ofList ('*' :: (front ++ (join [' '] ws ++ back)))) =
      some (ofName (String.ofList (lower (join [' '] ws)))) := by
  have hblank : ∀ word ∈ ws, word ≠ [] ∧ ∀ c ∈ word, isBlank c = false := by
    intro word hword
    refine ⟨(hwords word hword).1, fun c hc => ?_⟩
    have := (hwords word hword).2 c hc
    simp only [isFrame, Bool.or_eq_false_iff] at this
    exact this.2
  have hne : ∀ word ∈ ws, word ≠ [] := fun word hword => (hwords word hword).1
  have hinner : ∀ c ∈ (join [' '] ws).head?, isFrame c = false := by
    intro c hc
    cases ws with
    | nil => cases hc
    | cons word rest =>
      rw [head?_join (hne word List.mem_cons_self)] at hc
      exact (hwords word List.mem_cons_self).2 c (List.mem_of_mem_head? hc)
  have houter : ∀ c ∈ (join [' '] ws).getLast?, isFrame c = false := by
    intro c hc
    rw [getLast?_join hne] at hc
    obtain ⟨word, hword, hc⟩ := Option.bind_eq_some_iff.mp hc
    exact (hwords word (List.mem_of_getLast? hword)).2 c (List.mem_of_getLast? hc)
  have htrim : dropEndWhile isFrame (('*' :: (front ++ (join [' '] ws ++ back))).dropWhile isFrame) =
      join [' '] ws := by
    rw [List.dropWhile_cons_of_pos rfl]
    exact dropEndWhile_dropWhile_framed hfront hback hinner houter
  have hstart : trimStart ('*' :: (front ++ (join [' '] ws ++ back))) =
      '*' :: (front ++ (join [' '] ws ++ back)) := by
    rw [trimStart, List.dropWhile_cons_of_neg (by decide)]
  rw [ofHeader?, String.toList_ofList, hstart]
  simp only
  rw [htrim, words_join hblank]

/-- The names of the tables. -/
def names : List String :=
  ["setting", "settings", "variable", "variables", "test case", "test cases", "testcase", "testcases",
    "keyword", "keywords"]

theorem mem_names {name : String} (h : (ofName name).isKnown = true) : name ∈ names := by
  unfold ofName at h
  simp only [names, List.mem_cons] at h ⊢
  split at h
  · tauto
  split at h
  · tauto
  split at h
  · tauto
  split at h
  · tauto
  · cases h

/-- A name is of words, which are of letters, and no fewer of them name a table. -/
theorem words_of_names : ∀ name ∈ names,
    (∀ word ∈ words name.toList, word ≠ [] ∧ IsLetters word) ∧
      String.ofList (join [' '] (words name.toList)) = name ∧
      ∀ n < (words name.toList).length,
        ofName (String.ofList (join [' '] ((words name.toList).take n))) = .other := by
  decide +kernel

end SectionKind

/-! ## Lines that spell a header -/

/-- A line of stars, the words of the name of a table in any case, and stars, with spaces and tabs around
the words and spaces between them. -/
structure HeaderLine where
  name : String
  known : (SectionKind.ofName name).isKnown = true
  /-- The stars before the name but for one. -/
  stars : Nat
  lead : List Char
  first : List Char
  /-- The words after the first, each with the gap before it. -/
  others : List (List Char × List Char)
  trail : List Char
  /-- The stars after the name. -/
  closing : Nat
  lead_gaps : ∀ c ∈ lead, isGap c = true
  other_gaps : ∀ p ∈ others, p.1 ≠ [] ∧ ∀ c ∈ p.1, c = ' '
  trail_gaps : ∀ c ∈ trail, isGap c = true
  spelled : (first :: others.map Prod.snd).map lower = words name.toList

theorem isFrame_of_isGap {c : Char} (h : isGap c = true) : SectionKind.isFrame c = true := by
  simp only [isGap, Bool.or_eq_true, beq_iff_eq] at h
  rcases h with rfl | rfl <;> rfl

theorem isFrame_of_mem_stars {c : Char} {n : Nat} (h : c ∈ List.replicate n '*') :
    SectionKind.isFrame c = true := by
  rw [List.eq_of_mem_replicate h]
  rfl

theorem isWordChar_of_mem_stars {c : Char} {n : Nat} (h : c ∈ List.replicate n '*') :
    isWordChar c = true := by
  rw [List.eq_of_mem_replicate h]
  rfl

theorem isCell_stars {n : Nat} (h : n ≠ 0) : IsCell (List.replicate n '*') :=
  isCell_word (by simpa using h) fun _ => isWordChar_of_mem_stars

/-- Words with the gaps before them. -/
def spelling (ps : List (List Char × List Char)) : List Char := ps.flatMap fun p => p.1 ++ p.2

/-- Words with at most a space between them go on with a cell. -/
theorem isCell_spelling {ps : List (List Char × List Char)} (hcell : IsCell cell)
    (h : ∀ p ∈ ps, (p.1 = [] ∨ p.1 = [' ']) ∧ IsCell p.2) : IsCell (cell ++ spelling ps) := by
  induction ps generalizing cell with
  | nil => rwa [spelling, List.flatMap_nil, List.append_nil]
  | cons p ps ih =>
    obtain ⟨hgap, hword⟩ := h p List.mem_cons_self
    have hrest := ih (hcell.append hword hgap) fun q hq => h q (List.mem_cons_of_mem p hq)
    rwa [List.append_assoc] at hrest

theorem append_spelling {ps : List (List Char × List Char)} (h : ∀ p ∈ ps, p.1 = [' '])
    (word : List Char) : word ++ spelling ps = join [' '] (word :: ps.map Prod.snd) := by
  induction ps generalizing word with
  | nil => simp [spelling, join]
  | cons p ps ih =>
    have hrest := ih (fun q hq => h q (List.mem_cons_of_mem p hq)) p.2
    rw [List.map_cons, join_cons_cons, ← hrest, spelling, List.flatMap_cons, h p List.mem_cons_self,
      List.append_assoc, List.append_assoc]
    rfl

/-- What is spelled with letters stands in a cell and is no frame of a header. -/
theorem clear_of_isLetters (h : IsLetters (lower word)) :
    ∀ c ∈ word, isWordChar c = true ∧ SectionKind.isFrame c = false := by
  intro c hc
  have hstar : c ≠ '*' := by
    rintro rfl
    exact notMem_of_isLetters h (by decide +kernel) (by decide) hc
  have hsharp : c ≠ '#' := by
    rintro rfl
    exact notMem_of_isLetters h (by decide +kernel) (by decide) hc
  have hblank : isBlank c = false := by
    cases hblank : isBlank c with
    | false => rfl
    | true =>
      have hclear := notMem_of_isLetters h (isSettled_of_isBlank hblank) (not_letter_of_isBlank hblank)
      exact absurd hc hclear
  have hother (d : Char) (hd : isBlank d = true) : c ≠ d := by
    rintro rfl
    rw [hd] at hblank
    cases hblank
  have hgap : isGap c = false := by simp [isGap, hother ' ' rfl, hother '\t' rfl]
  have hend : isLineEnd c = false := by simp [isLineEnd, hother '\r' rfl, hother '\n' rfl]
  simp [isWordChar, SectionKind.isFrame, hgap, hend, hsharp, hstar, hblank]

namespace HeaderLine

variable {h : HeaderLine} {p : List Char × List Char}

/-- The words of the name, each with the gap before it. -/
def gapped (h : HeaderLine) : List (List Char × List Char) := (h.lead, h.first) :: h.others

def written (h : HeaderLine) : List Char :=
  '*' :: (List.replicate h.stars '*' ++ (spelling h.gapped ++ (h.trail ++ List.replicate h.closing '*')))

/-- No gap before a word is wide. -/
def IsNarrow (h : HeaderLine) : Prop := ∀ p ∈ h.gapped, isWide p.1 = false

instance (h : HeaderLine) : Decidable h.IsNarrow := List.decidableBAll _ h.gapped

/-- The words before the first wide gap, with their gaps. -/
def near (h : HeaderLine) : List (List Char × List Char) := h.gapped.takeWhile (!isWide ·.1)

/-- The words from the first wide gap on, with their gaps. -/
def far (h : HeaderLine) : List (List Char × List Char) := h.gapped.dropWhile (!isWide ·.1)

/-- The words before the first wide gap. -/
def reached (h : HeaderLine) : List (List Char) := h.near.map Prod.snd

theorem gap_of_mem (hp : p ∈ h.gapped) : ∀ c ∈ p.1, isGap c = true := by
  rcases List.mem_cons.mp hp with rfl | hp
  · exact h.lead_gaps
  · intro c hc
    rw [(h.other_gaps p hp).2 c hc]
    rfl

theorem word_of_mem (hp : p ∈ h.gapped) : p.2 ≠ [] ∧ IsLetters (lower p.2) := by
  have hword : lower p.2 ∈ words h.name.toList := by
    rw [← h.spelled]
    exact List.mem_map_of_mem (List.mem_map_of_mem (f := Prod.snd) hp)
  obtain ⟨hne, hletters⟩ := (SectionKind.words_of_names _ (SectionKind.mem_names h.known)).1 _ hword
  refine ⟨?_, hletters⟩
  intro hnil
  rw [hnil] at hne
  exact hne rfl

theorem chars_of_mem (hp : p ∈ h.gapped) :
    ∀ c ∈ p.2, isWordChar c = true ∧ SectionKind.isFrame c = false :=
  clear_of_isLetters (word_of_mem hp).2

theorem near_narrow (hp : p ∈ h.near) : p ∈ h.gapped ∧ (p.1 = [] ∨ p.1 = [' ']) := by
  have hmem := (List.takeWhile_prefix _).subset hp
  have hnarrow := List.mem_takeWhile_imp hp
  exact ⟨hmem, eq_of_not_isWide (gap_of_mem hmem) (by simpa using hnarrow)⟩

/-- The stars and the words before the first wide gap are a cell. -/
theorem isCell_near (h : HeaderLine) : IsCell (List.replicate (h.stars + 1) '*' ++ spelling h.near) := by
  refine isCell_spelling (isCell_stars (Nat.succ_ne_zero _)) fun p hp => ?_
  obtain ⟨hmem, hgap⟩ := near_narrow hp
  exact ⟨hgap, isCell_word (word_of_mem hmem).1 fun c hc => (chars_of_mem hmem c hc).1⟩

theorem near_append_far (h : HeaderLine) : h.near ++ h.far = h.gapped := List.takeWhile_append_dropWhile

/-- The stars and the gap before the first word are a frame. -/
theorem exists_front (h : HeaderLine) : ∃ front, (∀ c ∈ front, SectionKind.isFrame c = true) ∧
    List.replicate h.stars '*' ++ spelling h.near = front ++ join [' '] h.reached := by
  by_cases hlead : isWide h.lead = true
  · have hnear : h.near = [] := by simp [near, gapped, hlead]
    exact ⟨_, fun _ => isFrame_of_mem_stars, by rw [reached, hnear]; rfl⟩
  · have hnear : h.near = (h.lead, h.first) :: h.others.takeWhile (!isWide ·.1) := by
      simp [near, gapped, hlead]
    have hgaps : ∀ p ∈ h.others.takeWhile (!isWide ·.1), p.1 = [' '] := by
      intro p hp
      have hmem := (List.takeWhile_prefix _).subset hp
      have hnarrow := (near_narrow (h := h) (hnear ▸ List.mem_cons_of_mem _ hp)).2
      exact hnarrow.resolve_left (h.other_gaps p hmem).1
    refine ⟨List.replicate h.stars '*' ++ h.lead, fun c hc => ?_, ?_⟩
    · rcases List.mem_append.mp hc with hc | hc
      · exact isFrame_of_mem_stars hc
      · exact isFrame_of_isGap (h.lead_gaps c hc)
    · rw [reached, hnear, List.map_cons, ← append_spelling hgaps, spelling, List.flatMap_cons]
      simp only [List.append_assoc]
      rfl

/-- What follows the cell goes on with it by a gap and stars, and then ends it. -/
theorem exists_tail (h : HeaderLine) (hcell : IsCell cell) :
    ∃ back tail, spelling h.far ++ (h.trail ++ List.replicate h.closing '*') = back ++ tail ∧
      IsCell (cell ++ back) ∧ EndsCell tail ∧ ∀ c ∈ back, SectionKind.isFrame c = true := by
  have hends (tail : List Char) (htail : EndsCell tail) : ∃ back rest, tail = back ++ rest ∧
      IsCell (cell ++ back) ∧ EndsCell rest ∧ ∀ c ∈ back, SectionKind.isFrame c = true :=
    ⟨[], tail, rfl, by rwa [List.append_nil], htail, by simp⟩
  have hclosing : NotLed isGap (List.replicate h.closing '*') := by
    intro c hc
    rw [List.eq_of_mem_replicate (List.mem_of_mem_head? hc)]
    rfl
  cases hfar : h.far with
  | cons p rest =>
    have hmem : p ∈ h.gapped := (List.dropWhile_suffix _).subset (hfar ▸ List.mem_cons_self)
    have hwide : isWide p.1 = true := by
      have hhead := List.head?_dropWhile_not (fun p : List Char × List Char => !isWide p.1) h.gapped
      rw [← far, hfar] at hhead
      simpa using hhead
    refine hends _ ?_
    rw [spelling, List.flatMap_cons, List.append_assoc, List.append_assoc]
    exact .separator (isWide_iff.mp hwide)
      (notLed_gap_word (word_of_mem hmem).1 fun c hc => (chars_of_mem hmem c hc).1)
  | nil =>
    rw [spelling, List.flatMap_nil, List.nil_append]
    by_cases hwide : isWide h.trail = true
    · exact hends _ (.separator (isWide_iff.mp hwide) hclosing)
    · have htrail := eq_of_not_isWide h.trail_gaps (by simpa using hwide)
      by_cases hzero : h.closing = 0
      · rw [hzero, List.replicate_zero, List.append_nil]
        refine hends _ ?_
        rcases htrail with htrail | htrail
        · rw [htrail]
          exact .nil
        · rw [htrail]
          exact .space
      · refine ⟨_, [], (List.append_nil _).symm, hcell.append (isCell_stars hzero) htrail, .nil,
          fun c hc => ?_⟩
        rcases List.mem_append.mp hc with hc | hc
        · exact isFrame_of_isGap (h.trail_gaps c hc)
        · exact isFrame_of_mem_stars hc

theorem onOneLine_written (h : HeaderLine) : OnOneLine h.written := by
  have hgap {c : Char} (hc : isGap c = true) : isLineEnd c = false := by
    simp only [isGap, Bool.or_eq_true, beq_iff_eq] at hc
    rcases hc with rfl | rfl <;> rfl
  have hword {c : Char} (hc : isWordChar c = true) : isLineEnd c = false := by
    simp only [isWordChar, Bool.not_eq_true', Bool.or_eq_false_iff] at hc
    exact hc.1.2
  intro c hc
  simp only [written, List.mem_cons, List.mem_append, spelling, List.mem_flatMap] at hc
  rcases hc with rfl | hc | ⟨p, hp, hc | hc⟩ | hc | hc
  · rfl
  · exact hword (isWordChar_of_mem_stars hc)
  · exact hgap (gap_of_mem hp c hc)
  · exact hword (chars_of_mem hp c hc).1
  · exact hgap (h.trail_gaps c hc)
  · exact hword (isWordChar_of_mem_stars hc)

/-- The row of the line is a header, and its name is of the words before the first wide gap. -/
theorem exists_row (h : HeaderLine) (number : Nat) : ∃ r, tableRow number h.written = some r ∧
    r.row.header? = some (.ofName (String.ofList (join [' '] (h.reached.map lower)))) := by
  obtain ⟨back, tail, htail, hcell, hends, hback⟩ := h.exists_tail h.isCell_near
  obtain ⟨front, hfront, hnear⟩ := h.exists_front
  have hshape : List.replicate (h.stars + 1) '*' ++ spelling h.near ++ back =
      '*' :: (front ++ (join [' '] h.reached ++ back)) := by
    rw [List.replicate_succ, List.cons_append, List.cons_append, hnear, List.append_assoc]
  have hwritten : h.written = '*' :: (front ++ (join [' '] h.reached ++ back)) ++ tail := by
    have hspelling : spelling h.gapped = spelling h.near ++ spelling h.far := by
      rw [← h.near_append_far, spelling, spelling, spelling, List.flatMap_append]
    rw [← hshape, List.append_assoc, ← htail, written, hspelling, List.replicate_succ]
    simp only [List.append_assoc, List.cons_append]
  have hwords : ∀ word ∈ h.reached, word ≠ [] ∧ ∀ c ∈ word, SectionKind.isFrame c = false := by
    intro word hword
    obtain ⟨p, hp, rfl⟩ := List.mem_map.mp hword
    have hmem := (near_narrow hp).1
    exact ⟨(word_of_mem hmem).1, fun c hc => (chars_of_mem hmem c hc).2⟩
  have hsigma : ∀ word ∈ h.reached, 'Σ' ∉ word := by
    intro word hword
    obtain ⟨p, hp, rfl⟩ := List.mem_map.mp hword
    exact sigma_notMem_of_isLetters (word_of_mem (near_narrow hp).1).2
  have hline : OnOneLine tail := fun c hc =>
    h.onOneLine_written c (hwritten ▸ List.mem_append_right _ hc)
  rw [hshape] at hcell
  obtain ⟨r, hrow, hfirst, hindented⟩ := tableRow_cell hcell hends hline number
  have hplain : r.row.indented = false := hindented
  refine ⟨r, hwritten ▸ hrow, ?_⟩
  rw [Row.header?, if_neg (by simp [hplain]), hfirst,
    SectionKind.ofHeader?_framed hfront hback hwords, lower_join_words hsigma]

/-- The words before the first wide gap are the first words of the name. -/
theorem map_lower_reached (h : HeaderLine) :
    h.reached.map lower = (words h.name.toList).take h.near.length := by
  have hnear : h.near = h.gapped.take h.near.length :=
    List.prefix_iff_eq_take.mp (List.takeWhile_prefix _)
  calc h.reached.map lower
    _ = ((h.gapped.take h.near.length).map Prod.snd).map lower := by rw [reached, ← hnear]
    _ = ((h.gapped.map Prod.snd).map lower).take h.near.length := by rw [List.map_take, List.map_take]
    _ = (words h.name.toList).take h.near.length := by rw [← h.spelled]; rfl

/-- They name a table only if they are all its words. -/
theorem ofName_reached (h : HeaderLine) :
    SectionKind.ofName (String.ofList (join [' '] (h.reached.map lower))) =
      if h.IsNarrow then SectionKind.ofName h.name else .other := by
  obtain ⟨-, hname, hfewer⟩ := SectionKind.words_of_names _ (SectionKind.mem_names h.known)
  have hlength : h.gapped.length = (words h.name.toList).length := by
    rw [← h.spelled, List.length_map]
    simp [gapped]
  have hall : h.near = h.gapped ↔ h.IsNarrow := by
    rw [near, List.takeWhile_eq_self_iff]
    simp [IsNarrow]
  have hbegins : h.near <+: h.gapped := List.takeWhile_prefix _
  rw [map_lower_reached]
  split
  · next hnarrow => rw [hall.mpr hnarrow, hlength, List.take_length, hname]
  · next hwide =>
    refine hfewer _ (hlength ▸ lt_of_le_of_ne hbegins.length_le fun heq => ?_)
    exact hwide (hall.mp (hbegins.eq_of_length heq))

end HeaderLine

/-- A line that spells a header starts a section of its name exactly if no gap before a word is wide.
Otherwise the section is of none of the four tables. -/
theorem header_starts_iff (h : HeaderLine) (hline : (physicalLines text)[number]? = some h.written) :
    (StartsSection text number (.ofName h.name) ↔ h.IsNarrow) ∧
      (¬ h.IsNarrow → StartsSection text number .other) := by
  have hstarts (kind : SectionKind) : StartsSection text number kind ↔
      (if h.IsNarrow then SectionKind.ofName h.name else .other) = kind := by
    obtain ⟨r, hrow, hheader⟩ := h.exists_row number
    rw [startsSection_iff hline, hrow]
    simp [hheader, h.ofName_reached]
  have hknown : SectionKind.other ≠ .ofName h.name := by
    intro hother
    have hknown := h.known
    rw [← hother] at hknown
    cases hknown
  by_cases hnarrow : h.IsNarrow
  · simp [hstarts, hnarrow]
  · simp [hstarts, hnarrow, hknown]

/-- A header with a single space before each word. -/
def narrowHeader : HeaderLine where
  name := "test cases"
  known := rfl
  stars := 2
  lead := [' ']
  first := "TEST".toList
  others := [([' '], "Cases".toList)]
  trail := ['\t']
  closing := 1
  lead_gaps := List.forall_mem_singleton.mpr rfl
  other_gaps := List.forall_mem_singleton.mpr ⟨List.cons_ne_nil _ _, List.forall_mem_singleton.mpr rfl⟩
  trail_gaps := List.forall_mem_singleton.mpr rfl
  spelled := rfl

theorem header_starts_testCases : StartsSection "# suite\r*** TEST Cases\t*\n".toList 1 .testCases :=
  (header_starts_iff narrowHeader (by decide +kernel)).1.mpr (by decide +kernel)

/-- A header with two spaces before its word. -/
def wideHeader : HeaderLine where
  name := "settings"
  known := rfl
  stars := 2
  lead := [' ', ' ']
  first := "Settings".toList
  others := []
  trail := [' ', ' ']
  closing := 3
  lead_gaps := by simp [isGap]
  other_gaps := by simp
  trail_gaps := by simp [isGap]
  spelled := rfl

theorem wide_header_starts_other :
    (physicalLines "***  Settings  ***\n".toList)[0]? = some wideHeader.written ∧
      ¬ StartsSection "***  Settings  ***\n".toList 0 (.ofName wideHeader.name) ∧
      sections (rows "***  Settings  ***\n".toList) = [⟨.other, []⟩] := by
  have hline : (physicalLines "***  Settings  ***\n".toList)[0]? = some wideHeader.written := by
    decide +kernel
  have hheader : (tableRow 0 wideHeader.written).bind (·.row.header?) = some .other := by decide +kernel
  refine ⟨hline, ?_, by decide +kernel⟩
  rw [startsSection_iff hline]
  rintro ⟨r, hrow, hkind⟩
  rw [hrow, Option.bind_some, hkind] at hheader
  cases hheader

end KeywordIndex.Robot
