import KeywordIndex.LineIndex
import Mathlib.Data.List.TakeWhile
import Mathlib.Data.Set.Card
import Mathlib.Order.Interval.Finset.Nat

namespace KeywordIndex

open Text

/-! # Positions of offsets

A line starts where the text does, and behind every line terminator (`mem_startsFrom_iff`). So the starts
increase, the line of an offset is the number of terminators that end up to it, and its column is the distance
from the last of them (`position_isAt`). An offset is got back from its position, and offsets and positions
have the same order (`position_before_iff`).
-/

/-- The one place comes before the other in the text. -/
def Position.Before (p q : Position) : Prop := p.line < q.line ∨ p.line = q.line ∧ p.column < q.column

theorem Position.not_before_self (p : Position) : ¬ p.Before p := by
  rintro (hline | ⟨-, hcolumn⟩)
  · exact lt_irrefl _ hline
  · exact lt_irrefl _ hcolumn

/-! ## Line terminators -/

/-- A line terminator ends at the byte offset. A carriage return and the line feed behind it are one. -/
def EndsLine (text : List Char) (offset : Nat) : Prop :=
  ∃ before after, text = before ++ after ∧ byteLength before = offset ∧
    (before.getLast? = some '\n' ∨ before.getLast? = some '\r' ∧ after.head? ≠ some '\n')

/-- The place of a byte offset: its line is the number of terminators that end up to it, and its column the
distance from the start of this line, behind which no terminator ends any more. -/
structure Position.IsAt (p : Position) (text : List Char) (offset : Nat) : Prop where
  line : p.line = {e | e ≤ offset ∧ EndsLine text e}.ncard
  column : ∃ start, (LineIndex.ofText text).starts[p.line]? = some start ∧ start + p.column = offset ∧
    ∀ e, start < e → e ≤ offset → ¬ EndsLine text e

section Terminators

variable {c : Char} {cs : List Char} {offset : Nat}

theorem not_endsLine_nil : ¬ EndsLine [] offset := by
  rintro ⟨before, after, happend, -, hlast⟩
  obtain ⟨rfl, rfl⟩ := List.append_eq_nil_iff.mp happend.symm
  simp at hlast

theorem EndsLine.pos (h : EndsLine cs offset) : 0 < offset := by
  obtain ⟨before, after, -, rfl, hlast⟩ := h
  cases before with
  | nil => simp at hlast
  | cons c before =>
    have hsize := c.utf8Size_pos
    rw [byteLength]
    omega

theorem EndsLine.le (h : EndsLine cs offset) : offset ≤ byteLength cs := by
  obtain ⟨before, after, rfl, rfl, -⟩ := h
  rw [byteLength_append]
  omega

/-- A terminator ends behind the first character, or further on. -/
theorem endsLine_cons_iff : EndsLine (c :: cs) offset ↔
    offset = c.utf8Size ∧ (c = '\n' ∨ c = '\r' ∧ cs.head? ≠ some '\n') ∨
      ∃ e, EndsLine cs e ∧ offset = c.utf8Size + e := by
  constructor
  · rintro ⟨before, after, happend, rfl, hlast⟩
    cases before with
    | nil => simp at hlast
    | cons d before =>
      obtain ⟨rfl, rfl⟩ := List.cons.inj happend
      cases before with
      | nil =>
        refine Or.inl ⟨rfl, ?_⟩
        simpa using hlast
      | cons d before =>
        refine Or.inr ⟨_, ⟨d :: before, after, rfl, rfl, ?_⟩, rfl⟩
        simpa using hlast
  · rintro (⟨rfl, hc⟩ | ⟨e, ⟨before, after, rfl, rfl, hlast⟩, rfl⟩)
    · exact ⟨[c], cs, rfl, rfl, by simpa using hc⟩
    · refine ⟨c :: before, after, rfl, rfl, ?_⟩
      cases before with
      | nil => simp at hlast
      | cons d before => simpa using hlast

/-- Of a carriage return and a line feed only the end of both counts. -/
theorem endsLine_pair_iff : EndsLine ('\r' :: '\n' :: cs) offset ↔
    offset = 2 ∨ ∃ e, EndsLine cs e ∧ offset = 2 + e := by
  have hsize : '\r'.utf8Size = 1 ∧ '\n'.utf8Size = 1 := ⟨rfl, rfl⟩
  simp only [endsLine_cons_iff, hsize, List.head?_cons]
  constructor
  · rintro (⟨-, hfirst⟩ | ⟨_, ⟨rfl, -⟩ | ⟨e, he, rfl⟩, rfl⟩)
    · simp at hfirst
    · exact Or.inl rfl
    · exact Or.inr ⟨e, he, by omega⟩
  · rintro (rfl | ⟨e, he, rfl⟩)
    · exact Or.inr ⟨1, Or.inl ⟨rfl, Or.inl trivial⟩, rfl⟩
    · exact Or.inr ⟨1 + e, Or.inr ⟨e, he, rfl⟩, by omega⟩

end Terminators

namespace LineIndex

/-! ## The starts of the lines -/

section Starts

variable {text : List Char} {start offset : Nat}

/-- A line starts behind every terminator. -/
theorem mem_startsFrom_iff {cs : List Char} :
    start ∈ startsFrom offset cs ↔ ∃ e, EndsLine cs e ∧ start = offset + e := by
  fun_induction startsFrom offset cs with
  | case1 offset => simp [not_endsLine_nil]
  | case2 offset cs ih =>
    rw [List.mem_cons, ih]
    simp only [endsLine_pair_iff]
    constructor
    · rintro (rfl | ⟨e, he, rfl⟩)
      · exact ⟨2, Or.inl rfl, rfl⟩
      · exact ⟨2 + e, Or.inr ⟨e, he, rfl⟩, by omega⟩
    · rintro ⟨_, rfl | ⟨e, he, rfl⟩, rfl⟩
      · exact Or.inl rfl
      · exact Or.inr ⟨e, he, by omega⟩
  | case3 offset c cs hpair next hend ih =>
    have hfirst : c = '\n' ∨ c = '\r' ∧ cs.head? ≠ some '\n' := by
      rcases hend with rfl | rfl
      · refine Or.inr ⟨rfl, fun hhead => ?_⟩
        obtain ⟨rest, rfl⟩ := List.head?_eq_some_iff.mp hhead
        exact hpair rest rfl rfl
      · exact Or.inl rfl
    rw [List.mem_cons, ih]
    simp only [endsLine_cons_iff, hfirst, and_true]
    constructor
    · rintro (rfl | ⟨e, he, rfl⟩)
      · exact ⟨_, Or.inl rfl, rfl⟩
      · exact ⟨_, Or.inr ⟨e, he, rfl⟩, by omega⟩
    · rintro ⟨_, rfl | ⟨e, he, rfl⟩, rfl⟩
      · exact Or.inl rfl
      · exact Or.inr ⟨e, he, by omega⟩
  | case4 offset c cs hpair next hend ih =>
    rw [not_or] at hend
    rw [ih]
    simp only [endsLine_cons_iff, hend.1, hend.2, false_and, or_self, and_false, false_or]
    constructor
    · rintro ⟨e, he, rfl⟩
      exact ⟨_, ⟨e, he, rfl⟩, by omega⟩
    · rintro ⟨_, ⟨e, he, rfl⟩, rfl⟩
      exact ⟨e, he, by omega⟩

theorem lt_of_mem_startsFrom {cs : List Char} (h : start ∈ startsFrom offset cs) : offset < start := by
  obtain ⟨e, he, rfl⟩ := mem_startsFrom_iff.mp h
  have hpos := he.pos
  omega

theorem pairwise_startsFrom (offset : Nat) (cs : List Char) : (startsFrom offset cs).Pairwise (· < ·) := by
  fun_induction startsFrom offset cs with
  | case1 => exact List.Pairwise.nil
  | case2 offset cs ih => exact List.pairwise_cons.mpr ⟨fun _ => lt_of_mem_startsFrom, ih⟩
  | case3 offset c cs hpair next hend ih => exact List.pairwise_cons.mpr ⟨fun _ => lt_of_mem_startsFrom, ih⟩
  | case4 offset c cs hpair next hend ih => exact ih

/-- The lines start in increasing order. -/
theorem pairwise_starts (text : List Char) : (ofText text).starts.Pairwise (· < ·) :=
  List.pairwise_cons.mpr ⟨fun _ => lt_of_mem_startsFrom, pairwise_startsFrom 0 text⟩

theorem mem_starts_iff : start ∈ (ofText text).starts ↔ start = 0 ∨ EndsLine text start := by
  rw [ofText, List.mem_cons, mem_startsFrom_iff]
  simp

theorem le_of_mem_starts (h : start ∈ (ofText text).starts) : start ≤ byteLength text := by
  rcases mem_starts_iff.mp h with rfl | hend
  · exact Nat.zero_le _
  · exact hend.le

/-- Only the first line starts before every terminator. -/
theorem length_filter_starts (text : List Char) (offset : Nat) :
    ((ofText text).starts.filter (· ≤ offset)).length = {e | e ≤ offset ∧ EndsLine text e}.ncard + 1 := by
  have hset : {e | e ≤ offset ∧ EndsLine text e} = ↑((startsFrom 0 text).filter (· ≤ offset)).toFinset := by
    ext e
    simp [mem_startsFrom_iff, and_comm]
  have hnodup : ((startsFrom 0 text).filter (· ≤ offset)).Nodup :=
    ((pairwise_startsFrom 0 text).filter _).imp ne_of_lt
  rw [hset, Set.ncard_coe_finset, List.toFinset_card_of_nodup hnodup, ofText,
    List.filter_cons_of_pos (by simp), List.length_cons]

end Starts

/-! ## Looking an offset up -/

section Search

variable {starts : List Nat} {offset : Nat}

/-- Of increasing starts those up to an offset come first. -/
theorem takeWhile_eq_filter (h : starts.Pairwise (· < ·)) (offset : Nat) :
    starts.takeWhile (· ≤ offset) = starts.filter (· ≤ offset) := by
  induction starts with
  | nil => rfl
  | cons start rest ih =>
    obtain ⟨hfirst, hrest⟩ := List.pairwise_cons.mp h
    by_cases hreached : start ≤ offset
    · rw [List.takeWhile_cons_of_pos (by simpa using hreached),
        List.filter_cons_of_pos (by simpa using hreached), ih hrest]
    · have hnone : (start :: rest).filter (· ≤ offset) = [] := by
        rw [List.filter_eq_nil_iff]
        intro later hlater
        have hle : start ≤ later := by
          rcases List.mem_cons.mp hlater with rfl | hmem
          · exact le_rfl
          · exact (hfirst later hmem).le
        simp only [decide_eq_true_eq]
        omega
      rw [hnone, List.takeWhile_cons_of_neg (by simpa using hreached)]

/-- A search for the first start behind the offset ends where the offset is looked up, however it goes about
it. -/
theorem eq_length_takeWhile {count : Nat} (hcount : count ≤ starts.length)
    (hreached : ∀ start ∈ starts.take count, start ≤ offset)
    (hbehind : ∀ start ∈ starts.drop count, offset < start) :
    count = (starts.takeWhile (· ≤ offset)).length := by
  have hstop : (starts.drop count).takeWhile (· ≤ offset) = [] := by
    cases hdrop : starts.drop count with
    | nil => rfl
    | cons start rest =>
      have hlt := hbehind start (by rw [hdrop]; exact List.mem_cons_self)
      exact List.takeWhile_cons_of_neg (by simpa using hlt)
  have hsplit : starts.takeWhile (· ≤ offset) = starts.take count := by
    conv_lhs => rw [← List.take_append_drop count starts]
    rw [List.takeWhile_append_of_pos (by simpa using hreached), hstop, List.append_nil]
  rw [hsplit, List.length_take, min_eq_left hcount]

end Search

section Positions

variable (text : List Char) (offset : Nat)

theorem reached_eq_filter :
    (ofText text).starts.takeWhile (· ≤ offset) = (ofText text).starts.filter (· ≤ offset) :=
  takeWhile_eq_filter (pairwise_starts text) offset

/-- No terminator ends between the last start up to an offset and the offset. -/
theorem not_endsLine_of_last {start : Nat}
    (hlast : ((ofText text).starts.takeWhile (· ≤ offset)).getLast? = some start) :
    ∀ e, start < e → e ≤ offset → ¬ EndsLine text e := by
  intro e hlater hreached hend
  have hmem : e ∈ (ofText text).starts.takeWhile (· ≤ offset) := by
    rw [reached_eq_filter, List.mem_filter, mem_starts_iff]
    exact ⟨Or.inr hend, by simpa using hreached⟩
  have hsorted : ((ofText text).starts.takeWhile (· ≤ offset)).Pairwise (· < ·) :=
    (pairwise_starts text).sublist (List.takeWhile_sublist _)
  obtain ⟨front, hfront⟩ := List.getLast?_eq_some_iff.mp hlast
  rw [hfront] at hmem hsorted
  rcases List.mem_append.mp hmem with hbefore | hself
  · have hlt := (List.pairwise_append.mp hsorted).2.2 e hbefore start (by simp)
    omega
  · obtain rfl := List.mem_singleton.mp hself
    exact lt_irrefl _ hlater

/-- An offset is looked up at its position. -/
theorem position_isAt : ((ofText text).position offset).IsAt text offset := by
  have hlength := length_filter_starts text offset
  rw [← reached_eq_filter] at hlength
  obtain ⟨start, hlast⟩ : ∃ start, ((ofText text).starts.takeWhile (· ≤ offset)).getLast? = some start := by
    refine Option.ne_none_iff_exists'.mp fun hnone => ?_
    rw [List.getLast?_eq_none_iff.mp hnone] at hlength
    simp at hlength
  have hle : start ≤ offset := by simpa using List.mem_takeWhile_imp (List.mem_of_getLast? hlast)
  have hcolumn : ((ofText text).position offset).column = offset - start := by simp [position, hlast]
  constructor
  · rw [position, hlength, Nat.add_sub_cancel]
  · refine ⟨start, ?_, by omega, not_endsLine_of_last text offset hlast⟩
    rw [List.getLast?_eq_getElem?] at hlast
    obtain ⟨hbound, rfl⟩ := List.getElem?_eq_some_iff.mp hlast
    exact List.prefix_iff_getElem?.mp (List.takeWhile_prefix (· ≤ offset)) _ hbound

end Positions

/-- There are not more terminators than bytes. -/
theorem line_le (text : List Char) (offset : Nat) : ((ofText text).position offset).line ≤ offset := by
  rw [(position_isAt text offset).line]
  have hsubset : {e | e ≤ offset ∧ EndsLine text e} ⊆ ↑(Finset.Icc 1 offset) := by
    intro e he
    exact Finset.mem_coe.mpr (Finset.mem_Icc.mpr ⟨he.2.pos, he.1⟩)
  have hcard := Set.ncard_le_ncard hsubset (Finset.finite_toSet _)
  rwa [Set.ncard_coe_finset, Nat.card_Icc, Nat.add_sub_cancel] at hcard

/-- The position of an offset that fits into 32 bits does so, too. -/
theorem position_lt (text : List Char) {offset : Nat} (h : offset < 2 ^ 32) :
    ((ofText text).position offset).line < 2 ^ 32 ∧ ((ofText text).position offset).column < 2 ^ 32 := by
  obtain ⟨start, -, hcolumn, -⟩ := (position_isAt text offset).column
  exact ⟨(line_le text offset).trans_lt h, by omega⟩

/-- A later offset is on a later line, or further on in the same one. -/
theorem position_before (text : List Char) {offset other : Nat} (h : offset < other) :
    ((ofText text).position offset).Before ((ofText text).position other) := by
  obtain ⟨hline, start, hstart, hcolumn, -⟩ := position_isAt text offset
  obtain ⟨hline', later, hlater, hcolumn', -⟩ := position_isAt text other
  have hfinite : {e | e ≤ other ∧ EndsLine text e}.Finite :=
    (Set.finite_le_nat other).subset fun e he => he.1
  have hmono : ((ofText text).position offset).line ≤ ((ofText text).position other).line := by
    rw [hline, hline']
    exact Set.ncard_le_ncard (fun e he => ⟨he.1.trans h.le, he.2⟩) hfinite
  rcases hmono.lt_or_eq with hlt | heq
  · exact Or.inl hlt
  · -- on one line the columns count from one start
    rw [heq, hlater] at hstart
    obtain rfl := Option.some.inj hstart
    exact Or.inr ⟨heq, by omega⟩

/-- Positions have the order of their offsets. -/
theorem position_before_iff (text : List Char) (offset other : Nat) :
    offset < other ↔ ((ofText text).position offset).Before ((ofText text).position other) := by
  refine ⟨position_before text, fun hbefore => ?_⟩
  rcases lt_trichotomy offset other with hlt | rfl | hgt
  · exact hlt
  · exact absurd hbefore (Position.not_before_self _)
  · -- each of them would come before the other
    have hafter := position_before text hgt
    rcases hbefore with hline | ⟨hline, hcolumn⟩ <;> rcases hafter with hline' | ⟨hline', hcolumn'⟩ <;> omega

/-! ## Offsets and positions -/

/-- Every offset of a text that fits into 32 bits is got back from its position. The starts of the lines begin
with zero and increase. The line is the number of terminators up to the offset, and every search for the first
start behind the offset finds it; its start and the column make up the offset, and no terminator ends between
them. All these numbers fit as well, and positions have the order of their offsets. -/
theorem positions_invert_offsets (text : List Char) (hsize : byteLength text < 2 ^ 32) :
    (ofText text).starts.head? = some 0 ∧ (ofText text).starts.Pairwise (· < ·) ∧
      (∀ start ∈ (ofText text).starts, start < 2 ^ 32) ∧
      ∀ offset ≤ byteLength text,
        ((ofText text).position offset).IsAt text offset ∧
        (∀ count ≤ (ofText text).size, (∀ start ∈ (ofText text).starts.take count, start ≤ offset) →
          (∀ start ∈ (ofText text).starts.drop count, offset < start) →
            ((ofText text).position offset).line = count - 1) ∧
        ((ofText text).position offset).line < 2 ^ 32 ∧ ((ofText text).position offset).column < 2 ^ 32 ∧
        ∀ other ≤ byteLength text,
          (offset < other ↔ ((ofText text).position offset).Before ((ofText text).position other)) ∧
          (offset ≠ other → (ofText text).position offset ≠ (ofText text).position other) := by
  refine ⟨rfl, pairwise_starts text, fun start hstart => (le_of_mem_starts hstart).trans_lt hsize, ?_⟩
  intro offset hoffset
  obtain ⟨hline, hcolumn⟩ := position_lt text (hoffset.trans_lt hsize)
  refine ⟨position_isAt text offset, ?_, hline, hcolumn, ?_⟩
  · intro count hcount hreached hbehind
    rw [eq_length_takeWhile hcount hreached hbehind, position]
  · intro other _
    refine ⟨position_before_iff text offset other, fun hne hsame => ?_⟩
    rcases Nat.lt_or_gt_of_ne hne with hlt | hgt
    · have hbefore := position_before text hlt
      rw [hsame] at hbefore
      exact Position.not_before_self _ hbefore
    · have hbefore := position_before text hgt
      rw [hsame] at hbefore
      exact Position.not_before_self _ hbefore

/-- The offset of the line feed in a pair is on the line that the pair ends, one column on from the carriage
return, and the next offset begins the next line. -/
theorem positions_invert_offsets_mixed :
    byteLength "a\r\nb\rc\nd".toList < 2 ^ 32 ∧ 2 ≤ byteLength "a\r\nb\rc\nd".toList ∧
      (ofText "a\r\nb\rc\nd".toList).starts = [0, 3, 5, 7] ∧
      (ofText "a\r\nb\rc\nd".toList).position 2 = ⟨0, 2⟩ ∧
      (ofText "a\r\nb\rc\nd".toList).position 3 = ⟨1, 0⟩ ∧
      (ofText "a\r\nb\rc\nd".toList).position 8 = ⟨3, 1⟩ ∧
      (Position.mk 0 2).IsAt "a\r\nb\rc\nd".toList 2 ∧ (Position.mk 0 2).line = 1 - 1 ∧
      (Position.mk 0 2).Before ⟨1, 0⟩ := by
  have hsize : byteLength "a\r\nb\rc\nd".toList < 2 ^ 32 := by decide
  have hoffset : 2 ≤ byteLength "a\r\nb\rc\nd".toList := by decide
  obtain ⟨-, -, -, hoffsets⟩ := positions_invert_offsets "a\r\nb\rc\nd".toList hsize
  obtain ⟨hat, hsearched, -, -, horder⟩ := hoffsets 2 hoffset
  exact ⟨hsize, hoffset, by decide, by decide, by decide, by decide, hat,
    hsearched 1 (by decide) (by decide) (by decide), (horder 3 (by decide)).1.mp (by decide)⟩

end LineIndex

end KeywordIndex
