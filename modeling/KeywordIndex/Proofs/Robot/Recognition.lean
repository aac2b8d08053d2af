import KeywordIndex.Proofs.Robot.Headers
import KeywordIndex.Recognition

namespace KeywordIndex.Robot

open Text

/-! # Recognition by the first header

A text counts as a table file by the first cell of its first row, which stands on the first line that is
not blank (`rows_of_firstLine`). The sections begin with that line too, but only if it is not indented. So
recognition agrees with the sections exactly on the texts that do not begin with an indented header
(`recognition_agrees_iff`).
-/

variable {c : Char} {s t : Slice} {text line : List Char} {number : Nat} {row : Row} {r : TableRow}

/-! ## Blank lines -/

/-- The line is of spaces and tabs, up to a comment. -/
def IsBlankLine (line : List Char) : Prop := ∀ c ∈ uncommented line, isGap c = true

instance (line : List Char) : Decidable (IsBlankLine line) := List.decidableBAll _ (uncommented line)

/-- Only gaps are left out of the slices. -/
theorem exists_mem_slicesFrom (hc : isGap c = false) {all : List (List Char)}
    (h : c ∈ s.text ∨ c ∈ all.flatten) : ∃ t ∈ slicesFrom s all, c ∈ t.text := by
  fun_induction slicesFrom s all with
  | case1 s => exact ⟨s, List.mem_singleton_self s, h.resolve_right (by simp)⟩
  | case2 s run rest hwide ih =>
    have hrun : c ∉ run := by
      intro hmem
      rw [isWide, Bool.and_eq_true, List.all_eq_true] at hwide
      rw [hwide.1 c hmem] at hc
      cases hc
    rw [List.flatten_cons, List.mem_append, or_iff_right hrun] at h
    rcases h with h | h
    · exact ⟨s, List.mem_cons_self, h⟩
    · obtain ⟨t, ht, hmem⟩ := ih (.inr h)
      exact ⟨t, List.mem_cons_of_mem s ht, hmem⟩
  | case3 s run rest _ ih =>
    refine ih ?_
    rwa [List.mem_append, or_assoc, ← List.mem_append, ← List.flatten_cons]

theorem mem_dropLastSpace {cs : List Char} (h : c ∈ cs) (hc : c ≠ ' ') : c ∈ Slice.dropLastSpace cs := by
  unfold Slice.dropLastSpace
  split
  · next hlast =>
    obtain ⟨front, rfl⟩ := List.getLast?_eq_some_iff.mp hlast
    rw [List.dropLast_concat]
    exact (List.mem_append.mp h).resolve_right (by simpa using hc)
  · exact h

/-- Stripping takes away no other character than spaces. -/
theorem mem_stripped (h : c ∈ s.text) (hc : c ≠ ' ') : c ∈ s.stripped.text := by
  unfold Slice.stripped
  split
  · next cs htext =>
    rw [htext] at h
    exact mem_dropLastSpace ((List.mem_cons.mp h).resolve_left hc) hc
  · exact mem_dropLastSpace h hc

/-- The lines that give no row are the blank ones. -/
theorem tableRow_eq_none_iff : tableRow number line = none ↔ IsBlankLine line := by
  rw [tableRow, rowOfSlices_eq_none_iff]
  constructor
  · intro hkept c hc
    by_contra hgap
    rw [Bool.not_eq_true] at hgap
    have hspace : c ≠ ' ' := by
      rintro rfl
      cases hgap
    have hflat : c ∈ (runs (uncommented line)).flatten := by rwa [runs, List.flatten_splitBy]
    obtain ⟨t, ht, hmem⟩ := exists_mem_slicesFrom (s := ⟨0, []⟩) hgap (.inr hflat)
    have hempty := List.filter_eq_nil_iff.mp hkept t.stripped (List.mem_map_of_mem ht)
    have hstripped := mem_stripped hmem hspace
    rw [Bool.not_eq_true, Bool.not_eq_false', List.isEmpty_iff] at hempty
    rw [hempty] at hstripped
    cases hstripped
  · intro hblank
    by_cases hnil : uncommented line = []
    · rw [hnil]
      rfl
    · have hruns : runs (uncommented line) = [uncommented line] := by
        have hrun : runs (uncommented line ++ []) = _ := runs_append hnil hblank (by simp)
        rwa [List.append_nil] at hrun
      rw [hruns]
      by_cases hwide : isWide (uncommented line) = true
      · simp [slicesFrom, hwide, kept, Slice.stripped, Slice.dropLastSpace]
      · rcases eq_of_not_isWide hblank (by simpa using hwide) with hline | hline
        · exact absurd hline hnil
        · rw [hline]
          rfl

/-! ## The first line -/

/-- The line is the first that is not blank. -/
def FirstLine (text : List Char) (number : Nat) (line : List Char) : Prop :=
  ∃ before after, physicalLines text = before ++ line :: after ∧ before.length = number ∧
    (∀ other ∈ before, IsBlankLine other) ∧ ¬ IsBlankLine line

theorem FirstLine.getElem? (h : FirstLine text number line) :
    (physicalLines text)[number]? = some line := by
  obtain ⟨before, after, hlines, rfl, -, -⟩ := h
  simp [hlines]

theorem blank_or_firstLine (text : List Char) :
    (∀ line ∈ physicalLines text, IsBlankLine line) ∨ ∃ number line, FirstLine text number line := by
  have hsplit := List.takeWhile_append_dropWhile (p := fun line => decide (IsBlankLine line))
    (l := physicalLines text)
  cases hrest : (physicalLines text).dropWhile fun line => decide (IsBlankLine line) with
  | nil => exact .inl (by simpa using hrest)
  | cons line after =>
    have hline := List.head?_dropWhile_not (fun line => decide (IsBlankLine line)) (physicalLines text)
    rw [hrest] at hsplit hline
    exact .inr ⟨_, line, _, after, hsplit.symm, rfl, fun other hother => by
      simpa using List.mem_takeWhile_imp hother, by simpa using hline⟩

theorem filterMap_blank {lines : List (List Char)} (h : ∀ line ∈ lines, IsBlankLine line) (number : Nat) :
    ((lines.zipIdx number).filterMap fun (line, number) => tableRow number line) = [] := by
  rw [List.filterMap_eq_nil_iff]
  rintro ⟨line, number⟩ hmem
  exact tableRow_eq_none_iff.mpr (h line (List.fst_mem_of_mem_zipIdx hmem))

theorem rows_of_blank (h : ∀ line ∈ physicalLines text, IsBlankLine line) : rows text = [] := by
  rw [rows_eq_tableRows, tableRows, filterMap_blank h, List.map_nil]

/-- The first line that is not blank gives the first row. -/
theorem rows_of_firstLine (h : FirstLine text number line) :
    ∃ r rest, tableRow number line = some r ∧ tableRows text = r :: rest := by
  obtain ⟨before, after, hlines, rfl, hbefore, hline⟩ := h
  cases hrow : tableRow before.length line with
  | none => exact absurd (tableRow_eq_none_iff.mp hrow) hline
  | some r =>
    refine ⟨r, ((after.zipIdx (before.length + 1)).filterMap fun (line, number) =>
      tableRow number line), rfl, ?_⟩
    rw [tableRows, hlines, List.zipIdx_append, List.filterMap_append, filterMap_blank hbefore,
      List.nil_append, List.zipIdx_cons, Nat.zero_add]
    exact List.filterMap_cons_some hrow

/-! ## Recognition -/

/-- The first line that is not blank is the header of the first section, and that is one of the four
tables. -/
def StartsWithTable (text : List Char) : Prop :=
  ∃ number line s, FirstLine text number line ∧ Heads text number s ∧
    (sections (rows text)).head? = some s ∧ s.kind.isKnown = true

/-- The first row is indented and would be a header of one of the four tables. -/
def StartsIndented (text : List Char) : Prop :=
  ∃ row kind, (rows text).head? = some row ∧ row.indented = true ∧
    SectionKind.ofHeader? row.first = some kind ∧ kind.isKnown = true

theorem isTableText_iff : isTableText text = true ↔ ∃ row kind, (rows text).head? = some row ∧
    SectionKind.ofHeader? row.first = some kind ∧ kind.isKnown = true := by
  unfold isTableText
  cases rows text with
  | nil => simp
  | cons row rest =>
    cases hheader : SectionKind.ofHeader? row.first with
    | none => simp [hheader]
    | some kind => simp [hheader]

theorem startsWithTable_iff : StartsWithTable text ↔ ∃ row kind, (rows text).head? = some row ∧
    row.header? = some kind ∧ kind.isKnown = true := by
  constructor
  · rintro ⟨number, line, s, hfirst, hheads, -, hknown⟩
    obtain ⟨r, rest, hrow, hrows⟩ := rows_of_firstLine hfirst
    obtain ⟨other, hother, hheader⟩ := (startsSection_iff hfirst.getElem?).mp ⟨s, hheads, rfl⟩
    obtain rfl := Option.some.inj (hrow.symm.trans hother)
    exact ⟨r.row, s.kind, by simp [rows_eq_tableRows, hrows], hheader, hknown⟩
  · rintro ⟨row, kind, hhead, hheader, hknown⟩
    rcases blank_or_firstLine text with hblank | ⟨number, line, hfirst⟩
    · rw [rows_of_blank hblank] at hhead
      cases hhead
    · obtain ⟨first, rest, hrow, hrows⟩ := rows_of_firstLine hfirst
      have hread : rows text = first.row :: rest.map TableRow.row := by
        rw [rows_eq_tableRows, hrows, List.map_cons]
      rw [hread] at hhead
      obtain rfl := Option.some.inj hhead
      have hopens : Opens text first ⟨kind, (rest.map TableRow.row).takeWhile (·.header?.isNone)⟩ :=
        opens_iff.mpr ⟨[], rest, hrows, hheader, rfl⟩
      refine ⟨number, line, _, hfirst, ⟨first, hopens, (tableRow_fits hrow).1⟩, ?_, hknown⟩
      rw [hread, sections, hheader]
      rfl

theorem header?_eq_some_iff {kind : SectionKind} :
    row.header? = some kind ↔ row.indented = false ∧ SectionKind.ofHeader? row.first = some kind := by
  unfold Row.header?
  cases row.indented <;> simp

/-- Recognition agrees with the sections exactly unless the text begins with an indented header. -/
theorem recognition_agrees_iff (text : List Char) :
    (isTableText text = true ↔ StartsWithTable text) ↔ ¬ StartsIndented text := by
  rw [isTableText_iff, startsWithTable_iff]
  constructor
  · rintro hagree ⟨row, kind, hhead, hindented, hheader, hknown⟩
    obtain ⟨other, _, hother, hopens, -⟩ := hagree.mp ⟨row, kind, hhead, hheader, hknown⟩
    obtain rfl := Option.some.inj (hhead.symm.trans hother)
    rw [(header?_eq_some_iff.mp hopens).1] at hindented
    cases hindented
  · intro hclear
    constructor
    · rintro ⟨row, kind, hhead, hheader, hknown⟩
      cases hindented : row.indented with
      | true => exact absurd ⟨row, kind, hhead, hindented, hheader, hknown⟩ hclear
      | false => exact ⟨row, kind, hhead, header?_eq_some_iff.mpr ⟨hindented, hheader⟩, hknown⟩
    · rintro ⟨row, kind, hhead, hheader, hknown⟩
      exact ⟨row, kind, hhead, (header?_eq_some_iff.mp hheader).2, hknown⟩

/-- The only header is indented, so there is no section, but the text counts as a table file. -/
theorem recognized_without_sections :
    isTableText "    *** Settings ***\n".toList = true ∧
      ¬ StartsWithTable "    *** Settings ***\n".toList ∧
      sections (rows "    *** Settings ***\n".toList) = [] := by
  have hnone : sections (rows "    *** Settings ***\n".toList) = [] := by decide +kernel
  refine ⟨by decide +kernel, ?_, hnone⟩
  rintro ⟨_, _, s, -, -, hhead, -⟩
  rw [hnone] at hhead
  cases hhead

end KeywordIndex.Robot
