import KeywordIndex.Proofs.Query.Acceptance
import KeywordIndex.Proofs.Robot.Grammar
import KeywordIndex.Proofs.Text.Words
import KeywordIndex.Query.Typed

namespace KeywordIndex.Query

open Text Robot

/-! # The cell under the cursor

What is typed is found by a search for the last tab or second space before the cursor. The tables are read
by a lexer, which takes the longest run of spaces and tabs and drops single spaces at the ends of a cell.
Both agree on the last cell of the line as it stands before the cursor (`typedText_last_cell`): the slice that
the grammar of rows has under way is what is typed, but for a space behind a tab (`UnderWay`).
-/

/-! ## The line before the cursor -/

/-- What is before the cursor is the longest initial part of the line that ends at the column or before. -/
structure CutAt (line : List Char) (column : Nat) (before : List Char) : Prop where
  initial : before <+: line
  fits : byteLength before ≤ column
  longest : ∀ other, other <+: line → byteLength other ≤ column → other <+: before

variable {c : Char} {cs line before done word run : List Char} {column : Nat} {s : Slice}

theorem cutAt_takeBytes (line : List Char) (column : Nat) : CutAt line column (takeBytes column line) := by
  induction line generalizing column with
  | nil =>
    refine ⟨List.prefix_refl [], Nat.zero_le column, ?_⟩
    intro other hother _
    exact hother
  | cons c line ih =>
    rw [takeBytes]
    split
    · next hfits =>
      have hrest := ih (column - c.utf8Size)
      refine ⟨?_, ?_, ?_⟩
      · exact List.cons_prefix_cons.mpr ⟨rfl, hrest.initial⟩
      · have := hrest.fits
        rw [byteLength]
        omega
      · intro other hother hsize
        cases other with
        | nil => exact List.nil_prefix
        | cons d other =>
          obtain ⟨rfl, hinitial⟩ := List.cons_prefix_cons.mp hother
          rw [byteLength] at hsize
          exact List.cons_prefix_cons.mpr ⟨rfl, hrest.longest other hinitial (by omega)⟩
    · next hlong =>
      refine ⟨List.nil_prefix, Nat.zero_le column, ?_⟩
      intro other hother hsize
      cases other with
      | nil => exact List.prefix_refl []
      | cons d other =>
        obtain ⟨rfl, -⟩ := List.cons_prefix_cons.mp hother
        rw [byteLength] at hsize
        omega

theorem cutAt_iff : CutAt line column before ↔ before = takeBytes column line := by
  have htaken := cutAt_takeBytes line column
  constructor
  · intro hcut
    have hle := htaken.longest before hcut.initial hcut.fits
    have hge := hcut.longest _ htaken.initial htaken.fits
    exact hle.eq_of_length_le hge.length_le
  · rintro rfl
    exact htaken

/-! ## The search from the end -/

/-- What is behind the last place of a text where a cell ends. The text is reversed, so that the search
begins at its end. -/
def behindLastEnd : List Char → List Char
  | [] => []
  | c :: cs => if endsCell cs.head? c then [] else behindLastEnd cs ++ [c]

theorem lastCellFrom_eq (done cs : List Char) :
    lastCellFrom done.head? (behindLastEnd done).reverse cs = behindLastEnd (cs.reverse ++ done) := by
  induction cs generalizing done with
  | nil => simp [lastCellFrom]
  | cons c cs ih =>
    have hcell : (if endsCell done.head? c then [] else c :: (behindLastEnd done).reverse) =
        (behindLastEnd (c :: done)).reverse := by
      rw [behindLastEnd]
      split <;> simp
    rw [lastCellFrom, hcell, List.reverse_cons, List.append_assoc]
    exact ih (c :: done)

/-- The search from the end finds what is typed. -/
theorem typedText_eq (line : List Char) (column : Nat) :
    typedText line column = behindLastEnd (takeBytes column line).reverse := by
  rw [typedText]
  simpa [behindLastEnd] using lastCellFrom_eq [] (takeBytes column line)

theorem reverse_behindLastEnd_isPrefix (cs : List Char) : (behindLastEnd cs).reverse <+: cs := by
  induction cs with
  | nil => exact List.prefix_refl []
  | cons c cs ih =>
    rw [behindLastEnd]
    split
    · exact List.nil_prefix
    · rw [List.reverse_append]
      exact List.cons_prefix_cons.mpr ⟨rfl, ih⟩

theorem behindLastEnd_suffix (cs : List Char) : behindLastEnd cs.reverse <:+ cs := by
  rw [← List.reverse_prefix]
  exact reverse_behindLastEnd_isPrefix cs.reverse

theorem tab_notMem_behindLastEnd (cs : List Char) : '\t' ∉ behindLastEnd cs := by
  induction cs with
  | nil => exact List.not_mem_nil
  | cons c cs ih =>
    rw [behindLastEnd]
    split
    · exact List.not_mem_nil
    · next hends =>
      rw [List.mem_append, List.mem_singleton]
      rintro (hmem | rfl)
      · exact ih hmem
      · exact hends rfl

theorem behindLastEnd_narrow (cs : List Char) : ¬ [' ', ' '] <:+: behindLastEnd cs := by
  induction cs with
  | nil => simp [behindLastEnd]
  | cons c cs ih =>
    rw [behindLastEnd]
    split
    · simp
    · next hends =>
      rw [List.infix_concat_iff]
      rintro (hlast | hinside)
      · -- the second space would have ended the cell
        rw [← List.reverse_prefix, List.reverse_concat] at hlast
        obtain ⟨rfl, hbefore⟩ := List.cons_prefix_cons.mp hlast
        obtain ⟨rest, rfl⟩ := hbefore.trans (reverse_behindLastEnd_isPrefix cs)
        exact hends rfl
      · exact ih hinside

/-- A text without spaces and tabs is appended. -/
theorem behindLastEnd_append (h : ∀ c ∈ word, isGap c = false) (done : List Char) :
    behindLastEnd ((done ++ word).reverse) = behindLastEnd done.reverse ++ word := by
  induction word using List.reverseRecOn with
  | nil => simp
  | append_singleton word c ih =>
    have hc : c ≠ ' ' ∧ c ≠ '\t' := by simpa [isGap] using h c (by simp)
    have hword := ih fun d hd => h d (List.mem_append_left [c] hd)
    rw [← List.append_assoc, List.reverse_concat, behindLastEnd, hword, if_neg (by simp [endsCell, hc]),
      List.append_assoc]

/-- Behind a separator nothing is typed yet, or the space that follows its last tab. -/
theorem behindLastEnd_separator (h : IsSeparator run) (done : List Char) :
    behindLastEnd (done ++ run).reverse = [] ∨ behindLastEnd (done ++ run).reverse = [' '] := by
  have hgap {c : Char} (hc : c ∈ run) : c = ' ' ∨ c = '\t' := by simpa [isGap] using h.1 c hc
  rw [List.reverse_append]
  have hreverse {c : Char} (hc : c ∈ run.reverse) : c = ' ' ∨ c = '\t' := hgap (List.mem_reverse.mp hc)
  cases hrun : run.reverse with
  | nil => exact absurd (List.reverse_eq_nil_iff.mp hrun) h.ne_nil
  | cons b more =>
    rw [hrun] at hreverse
    rcases hreverse List.mem_cons_self with rfl | rfl
    · cases more with
      | nil =>
        -- one space alone is no separator
        rw [List.reverse_eq_iff] at hrun
        subst hrun
        rcases h.2 with htab | hlong
        · cases htab
        · simp at hlong
      | cons a more =>
        rcases hreverse (List.mem_cons_of_mem _ List.mem_cons_self) with rfl | rfl
        · exact .inl rfl
        · exact .inr rfl
    · exact .inl rfl

/-! ## Spaces at the ends -/

/-- The text without the spaces at its ends. -/
def stripSpaces (cs : List Char) : List Char := dropEndWhile (· == ' ') (cs.dropWhile (· == ' '))

theorem stripSpaces_lead {lead : List Char} (h : lead = [] ∨ lead = [' ']) (cs : List Char) :
    stripSpaces (lead ++ cs) = stripSpaces cs := by
  rcases h with rfl | rfl
  · rfl
  · rw [stripSpaces, List.singleton_append, List.dropWhile_cons_of_pos (by decide), stripSpaces]

theorem eq_space_of_stripSpaces (h : stripSpaces cs = []) : ∀ c ∈ cs, c = ' ' := by
  rw [stripSpaces, dropEndWhile_eq, List.reverse_eq_nil_iff, List.dropWhile_eq_nil_iff] at h
  have hall : cs.dropWhile (· == ' ') = [] := by
    cases hdrop : cs.dropWhile (· == ' ') with
    | nil => rfl
    | cons c rest =>
      have hled := notLed_dropWhile (· == ' ') cs c (by rw [hdrop]; rfl)
      exact absurd (h c (by simp [hdrop])) (by simpa using hled)
  intro c hc
  simpa using List.dropWhile_eq_nil_iff.mp hall c hc

theorem dropWhile_space (h : cs.head? ≠ some ' ') : cs.dropWhile (· == ' ') = cs := by
  cases cs with
  | nil => rfl
  | cons c cs =>
    rw [List.dropWhile_cons_of_neg]
    rw [beq_iff_eq]
    rintro rfl
    exact h rfl

/-- Where no two spaces are in a row, one is dropped at the end at most. -/
theorem dropLastSpace_eq (h : ¬ [' ', ' '] <:+: cs) :
    Slice.dropLastSpace cs = dropEndWhile (· == ' ') cs := by
  unfold Slice.dropLastSpace
  split
  · next hlast =>
    obtain ⟨front, rfl⟩ := List.getLast?_eq_some_iff.mp hlast
    rw [List.dropLast_concat, dropEndWhile_append (by simp), dropEndWhile_eq_self]
    intro c hc
    rw [beq_eq_false_iff_ne]
    rintro rfl
    obtain ⟨more, rfl⟩ := List.getLast?_eq_some_iff.mp hc
    exact h ⟨more, [], by simp⟩
  · next hlast =>
    rw [dropEndWhile_eq_self]
    intro c hc
    rw [beq_eq_false_iff_ne]
    rintro rfl
    exact hlast hc

theorem text_stripped (h : ¬ [' ', ' '] <:+: s.text) : s.stripped.text = stripSpaces s.text := by
  unfold Slice.stripped stripSpaces
  split
  · next cs htext =>
    rw [htext] at h ⊢
    have hcs : ¬ [' ', ' '] <:+: cs := fun hspaces => h (hspaces.trans (List.suffix_cons ' ' cs).isInfix)
    have hhead : cs.head? ≠ some ' ' := by
      intro hhead
      obtain ⟨more, rfl⟩ := List.head?_eq_some_iff.mp hhead
      exact h ⟨[], more, rfl⟩
    rw [List.dropWhile_cons_of_pos (by decide), dropWhile_space hhead]
    exact dropLastSpace_eq hcs
  · next htext =>
    have hhead : s.text.head? ≠ some ' ' := by
      intro hhead
      obtain ⟨more, heq⟩ := List.head?_eq_some_iff.mp hhead
      exact htext more heq
    rw [dropWhile_space hhead]
    exact dropLastSpace_eq h

/-! ## The slice under way -/

/-- The text ends in a separator: in a tab or in two spaces and tabs. -/
def EndsSeparated (cs : List Char) : Prop := ∃ run, IsSeparator run ∧ run <:+ cs

/-- The slice is under way at the end of the text. It is what is typed, but for a space between a tab and the
slice; of spaces alone it is only behind a separator or where there is nothing else. -/
structure UnderWay (done : List Char) (s : Slice) : Prop where
  typed : ∃ lead, (lead = [] ∨ lead = [' ']) ∧ behindLastEnd done.reverse = lead ++ s.text
  blank : (∀ c ∈ s.text, c = ' ') → s.text = done ∨ EndsSeparated done

theorem underWay_nil : UnderWay [] ⟨0, []⟩ where
  typed := ⟨[], .inl rfl, rfl⟩
  blank _ := .inl rfl

/-- A word belongs to the slice. -/
theorem UnderWay.read_word (h : UnderWay done s) (hne : word ≠ [])
    (hword : ∀ c ∈ word, isWordChar c = true) :
    UnderWay (done ++ word) ⟨s.column, s.text ++ word⟩ := by
  have hgap : ∀ c ∈ word, isGap c = false := fun c hc => isGap_of_isWordChar (hword c hc)
  refine ⟨?_, ?_⟩
  · obtain ⟨lead, hlead, htyped⟩ := h.typed
    refine ⟨lead, hlead, ?_⟩
    rw [behindLastEnd_append hgap, htyped, List.append_assoc]
  · intro hspaces
    obtain ⟨c, hc⟩ := List.exists_mem_of_ne_nil word hne
    have hclear := hgap c hc
    rw [hspaces c (List.mem_append_right s.text hc)] at hclear
    cases hclear

theorem not_endsSeparated (h : NotLed isGap done.reverse) : ¬ EndsSeparated done := by
  rintro ⟨run, hrun, front, rfl⟩
  obtain ⟨pre, c, rfl⟩ := List.eq_nil_or_concat run |>.resolve_left hrun.ne_nil
  have hc := hrun.1 c (by simp)
  rw [h c (by simp)] at hc
  cases hc

/-- A space that no other follows or precedes belongs to the slice. -/
theorem UnderWay.read_space (h : UnderWay done s) (hclear : NotLed isGap done.reverse) :
    UnderWay (done ++ [' ']) ⟨s.column, s.text ++ [' ']⟩ := by
  refine ⟨?_, ?_⟩
  · obtain ⟨lead, hlead, htyped⟩ := h.typed
    refine ⟨lead, hlead, ?_⟩
    have hends : endsCell done.reverse.head? ' ' = false := by
      cases hlast : done.reverse.head? with
      | none => rfl
      | some c =>
        have hc := hclear c hlast
        have hne : c ≠ ' ' := by
          rintro rfl
          cases hc
        simp [endsCell, hne]
    rw [List.reverse_concat, behindLastEnd, hends, if_neg Bool.false_ne_true, htyped, List.append_assoc]
  · intro hspaces
    rcases h.blank fun c hc => hspaces c (List.mem_append_left [' '] hc) with heq | hseparated
    · exact .inl (by simp only [heq])
    · exact absurd hseparated (not_endsSeparated hclear)

theorem UnderWay.read_separator (h : IsSeparator run) (column : Nat) :
    UnderWay (done ++ run) ⟨column, []⟩ where
  typed := by
    refine ⟨_, behindLastEnd_separator h done, ?_⟩
    simp
  blank _ := .inr ⟨run, h, List.suffix_append done run⟩

/-- Reading a line to its end leaves its last slice under way. -/
theorem UnderWay.slices (hline : Pieces line) (honline : OnOneLine line) (hsharp : '#' ∉ line)
    (h : UnderWay done s) (hclear : NotLed isGap done.reverse ∨ NotLed isGap line) :
    ∃ front last, slicesFrom s (runs (uncommented line)) = front ++ [last] ∧
      UnderWay (done ++ line) last := by
  have hsuffix {a b : List Char} (h : OnOneLine (a ++ b)) : OnOneLine b :=
    fun c hc => h c (List.mem_append_right a hc)
  induction hline generalizing done s with
  | nil => exact ⟨[], s, by simp [uncommented, runs, slicesFrom], by simpa using h⟩
  | @word word rest hne hword hnext hrest ih =>
    have hread := h.read_word hne hword
    rw [runs_word hne hword hnext (hsuffix honline), slicesFrom,
      if_neg (by simp [isWide_word hne hword]), ← List.append_assoc]
    refine ih (hsuffix honline) (fun hmem => hsharp (List.mem_append_right word hmem)) hread (.inl ?_)
    -- the text ends in the word
    intro c hc
    rw [List.reverse_append, List.head?_append_of_ne_nil _ (by simpa using hne)] at hc
    exact isGap_of_isWordChar (hword c (List.mem_reverse.mp (List.mem_of_mem_head? hc)))
  | @space rest hnext hrest ih =>
    have hread := h.read_space (hclear.resolve_right fun hled => absurd (hled ' ' rfl) (by decide))
    have hruns := runs_gaps (List.cons_ne_nil ' ' []) (by simp [isGap]) hnext
    rw [List.singleton_append] at hruns
    rw [hruns, slicesFrom, if_neg (by decide), List.append_cons done]
    exact ih (hsuffix (a := [' ']) honline) (fun hmem => hsharp (List.mem_cons_of_mem ' ' hmem)) hread
      (.inr hnext)
  | @separator separator rest hseparator hnext hrest ih =>
    have hread : UnderWay (done ++ separator) ⟨s.stop + byteLength separator, []⟩ :=
      .read_separator hseparator _
    rw [runs_gaps hseparator.ne_nil hseparator.1 hnext, slicesFrom,
      if_pos (isWide_iff.mpr hseparator), ← List.append_assoc]
    obtain ⟨front, last, hslices, hlast⟩ := ih (hsuffix honline)
      (fun hmem => hsharp (List.mem_append_right separator hmem)) hread (.inr hnext)
    exact ⟨s :: front, last, by rw [hslices, List.cons_append], hlast⟩
  | comment => exact absurd List.mem_cons_self hsharp

/-! ## The last cell -/

/-- The last cell of a text. -/
def lastCell? (text : List Char) : Option String := (rows text).getLast?.bind (·.cells.getLast?)

/-- The last cell of a line is its last slice that is not empty when it is stripped. -/
theorem lastCell?_of_line (h : OnOneLine line) :
    lastCell? line = (kept (slicesFrom ⟨0, []⟩ (runs (uncommented line)))).getLast?.map
      fun s => String.ofList s.text := by
  have hrow : rows line = ((tableRow 0 line).map TableRow.row).toList := by
    rw [rows_eq_tableRows, tableRows, physicalLines_last h, List.zipIdx_singleton]
    cases hrow : tableRow 0 line <;> simp [hrow]
  rw [lastCell?, hrow, tableRow]
  cases hkept : kept (slicesFrom ⟨0, []⟩ (runs (uncommented line))) with
  | nil => rfl
  | cons first rest =>
    rw [rowOfSlices, Option.map_some, Option.toList_some, List.getLast?_singleton, Option.bind_some,
      TableRow.row, List.getLast?_map]

/-- There is no cell in spaces that are no separator. -/
theorem lastCell?_of_spaces (hspaces : ∀ c ∈ before, c = ' ') (h : ¬ EndsSeparated before) :
    lastCell? before = none := by
  match before with
  | [] => decide +kernel
  | [c] =>
    rw [hspaces c List.mem_cons_self]
    decide +kernel
  | c :: d :: rest =>
    have hseparator : IsSeparator (c :: d :: rest) := by
      refine ⟨?_, .inr (by simp)⟩
      intro e he
      rw [hspaces e he]
      rfl
    exact absurd ⟨_, hseparator, List.suffix_refl _⟩ h

/-- What is typed, without spaces around it, is the last cell of the text before the cursor, unless that text
ends where a cell does. -/
theorem stripSpaces_behindLastEnd (honline : OnOneLine before) (hsharp : '#' ∉ before)
    (h : ¬ EndsSeparated before) :
    stripSpaces (behindLastEnd before.reverse) = ((lastCell? before).getD "").toList := by
  obtain ⟨front, last, hslices, hlast⟩ :=
    underWay_nil.slices (pieces honline) honline hsharp (.inl notLed_nil)
  rw [List.nil_append] at hlast
  obtain ⟨lead, hlead, htyped⟩ := hlast.typed
  have hnarrow : ¬ [' ', ' '] <:+: last.text := by
    intro hspaces
    refine behindLastEnd_narrow before.reverse (hspaces.trans ?_)
    rw [htyped]
    exact (List.suffix_append lead last.text).isInfix
  have hstripped : stripSpaces (behindLastEnd before.reverse) = last.stripped.text := by
    rw [htyped, stripSpaces_lead hlead, text_stripped hnarrow]
  rw [hstripped]
  cases hcell : last.stripped.text with
  | nil =>
    -- a slice of spaces alone is the whole text, since no separator is at its end
    rw [text_stripped hnarrow] at hcell
    have hspaces := eq_space_of_stripSpaces hcell
    rw [(hlast.blank hspaces).resolve_right h] at hspaces
    rw [lastCell?_of_spaces hspaces h]
    rfl
  | cons c rest =>
    have hkept : kept [last] = [last.stripped] := by simp [kept, hcell]
    rw [lastCell?_of_line honline, hslices, kept_append, hkept, List.getLast?_concat]
    simp [hcell]

theorem kind_detectScope_ne {typed : List Char} (h : hasSeparator (trim typed) = false) (cx : ScopeContext) :
    (detectScope cx typed).kind ≠ .invalid := by
  intro hkind
  unfold detectScope at hkind
  simp only [h, Bool.false_eq_true, if_false] at hkind
  split at hkind
  · cases hkind
  · split at hkind
    · cases hkind
    · split at hkind
      · cases hkind
      · split at hkind <;> cases hkind

/-- What is typed is the end of the line before the cursor, without tabs and without two spaces in a row, so
it is a valid query. But for spaces around it, it is the last cell that is read there, and empty if there is
none or the line before the cursor ends with a separator. -/
theorem typedText_last_cell (line : List Char) (column : Nat)
    (hline : ∀ c ∈ line, c ≠ '\r' ∧ c ≠ '\n' ∧ c ≠ '#') :
    ∃ before, CutAt line column before ∧ typedText line column <:+ before ∧
      '\t' ∉ typedText line column ∧ ¬ [' ', ' '] <:+: typedText line column ∧
      (∀ cx, (detectScope cx (typedText line column)).kind ≠ .invalid) ∧
      (before = [] ∨ EndsSeparated before → stripSpaces (typedText line column) = []) ∧
      (before ≠ [] → ¬ EndsSeparated before →
        stripSpaces (typedText line column) = ((lastCell? before).getD "").toList) := by
  have htyped := typedText_eq line column
  have hcut := cutAt_takeBytes line column
  have htab : '\t' ∉ typedText line column := by
    rw [htyped]
    exact tab_notMem_behindLastEnd _
  have hnarrow : ¬ [' ', ' '] <:+: typedText line column := by
    rw [htyped]
    exact behindLastEnd_narrow _
  refine ⟨takeBytes column line, hcut, ?_, htab, hnarrow, ?_, ?_, ?_⟩
  · rw [htyped]
    exact behindLastEnd_suffix _
  · intro cx
    have hpart := trim_isInfix (typedText line column)
    refine kind_detectScope_ne (hasSeparator_eq_false_iff.mpr ⟨?_, ?_⟩) cx
    · exact fun hmem => htab (hpart.mem hmem)
    · exact fun hspaces => hnarrow (hspaces.trans hpart)
  · rintro (hnil | ⟨run, hrun, front, hfront⟩)
    · rw [htyped, hnil]
      rfl
    · rw [htyped, ← hfront]
      rcases behindLastEnd_separator hrun front with hnone | hspace
      · rw [hnone]
        rfl
      · rw [hspace]
        rfl
  · intro _ hopen
    rw [htyped]
    refine stripSpaces_behindLastEnd ?_ ?_ hopen
    · intro c hc
      obtain ⟨hreturn, hfeed, -⟩ := hline c (hcut.initial.mem hc)
      simp [isLineEnd, hreturn, hfeed]
    · intro hmem
      exact (hline '#' (hcut.initial.mem hmem)).2.2 rfl

/-- The column is within the `é`, and a space follows the tab. -/
theorem typedText_last_cell_inside :
    let typed := typedText "Call \t Log Ié".toList 13
    (∀ cx, (detectScope cx typed).kind ≠ .invalid) ∧ stripSpaces typed = "Log I".toList := by
  intro typed
  have hline : ∀ c ∈ "Call \t Log Ié".toList, c ≠ '\r' ∧ c ≠ '\n' ∧ c ≠ '#' := by simp
  obtain ⟨before, hcut, -, -, -, hvalid, -, hcell⟩ := typedText_last_cell "Call \t Log Ié".toList 13 hline
  have hbefore : before = "Call \t Log I".toList := (cutAt_iff.mp hcut).trans (by decide)
  have hlast : lastCell? "Call \t Log I".toList = some "Log I" := by decide +kernel
  have hopen : ¬ EndsSeparated "Call \t Log I".toList := by
    apply not_endsSeparated
    intro c hc
    obtain rfl := Option.some.inj hc
    rfl
  refine ⟨hvalid, ?_⟩
  rw [hbefore] at hcell
  rw [hcell (by decide) hopen, hlast]
  rfl

end KeywordIndex.Query
