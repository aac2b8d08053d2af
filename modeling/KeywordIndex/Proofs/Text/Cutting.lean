import KeywordIndex.Text.Blank
import KeywordIndex.Text.Split
import Mathlib.Data.List.DropRight
import Mathlib.Data.List.Infix
import Mathlib.Data.List.TakeWhile

namespace KeywordIndex.Text

/-! # Searching and trimming

A text is cut where another one first occurs in it. So the cut is found where it was made if there is no
earlier one (`cutAt?_append`), and there is one at all exactly if the text occurs (`occurs_iff`). Trimming
leaves a text alone exactly if no blank stands at its ends (`trim_eq_self_iff`).
-/

/-! ## Searching -/

variable {needle content cs : List Char}

theorem after?_isSome_iff : (after? needle cs).isSome = true ↔ needle <+: cs := by
  rw [Option.isSome_iff_exists]
  exact exists_congr fun rest => after?_eq_some_iff.trans eq_comm

theorem after?_eq_none_iff : after? needle cs = none ↔ ¬ needle <+: cs := by
  rw [← after?_isSome_iff, Option.not_isSome_iff_eq_none]

theorem occurs_iff : occurs needle cs = true ↔ needle <:+: cs := by
  unfold occurs
  induction cs with
  | nil => rw [cutAt?, Option.isSome_map, after?_isSome_iff, List.infix_nil, List.prefix_nil]
  | cons c cs ih =>
    rw [cutAt?, List.infix_cons_iff, ← after?_isSome_iff, ← ih]
    cases after? needle (c :: cs) with
    | none => simp
    | some rest => simp

theorem cutAt?_eq_none_iff : cutAt? needle cs = none ↔ ¬ needle <:+: cs := by
  rw [← occurs_iff, occurs, Option.not_isSome_iff_eq_none]

/-- A cut is made at the first place. -/
theorem not_infix_of_cutAt? (hne : needle ≠ []) {before rest : List Char}
    (h : cutAt? needle cs = some (before, rest)) : ¬ needle <:+: before := by
  induction cs generalizing before with
  | nil =>
    have hempty := (List.append_eq_nil_iff.mp (List.append_eq_nil_iff.mp (eq_of_cutAt? h).symm).1).1
    rw [hempty, List.infix_nil]
    exact hne
  | cons c cs ih =>
    rw [cutAt?] at h
    split at h
    · obtain ⟨rfl, -⟩ := Prod.mk.inj (Option.some.inj h)
      rw [List.infix_nil]
      exact hne
    · next hnone =>
      obtain ⟨⟨later, rest⟩, hcut, heq⟩ := Option.map_eq_some_iff.mp h
      obtain ⟨rfl, rfl⟩ := Prod.mk.inj heq
      have hprefix : c :: later <+: c :: cs := by
        rw [eq_of_cutAt? hcut, List.append_assoc]
        exact (List.prefix_cons_inj c).mpr (List.prefix_append later _)
      rw [List.infix_cons_iff, not_or]
      exact ⟨fun hfirst => after?_eq_none_iff.mp hnone (hfirst.trans hprefix), ih hcut⟩

/-- A text is cut where `needle` was put into it, unless `needle` ends earlier. -/
theorem cutAt?_append (h : ¬ needle <:+: content ++ needle.dropLast) (rest : List Char) :
    cutAt? needle (content ++ needle ++ rest) = some (content, rest) := by
  have hne : needle ≠ [] := by
    rintro rfl
    exact h (List.nil_infix)
  induction content with
  | nil =>
    obtain ⟨c, tail, rfl⟩ := List.exists_cons_of_ne_nil hne
    have hafter : after? (c :: tail) (c :: (tail ++ rest)) = some rest :=
      after?_eq_some_iff.mpr rfl
    rw [List.nil_append, List.cons_append, cutAt?, hafter]
  | cons c content ih =>
    rw [List.cons_append, List.infix_cons_iff, not_or] at h
    have hnone : after? needle (c :: (content ++ needle ++ rest)) = none := by
      refine after?_eq_none_iff.mpr fun hprefix => h.1 ?_
      -- what begins here and is as long as `needle` ends within it
      have hhead : c :: (content ++ needle.dropLast) <+: c :: (content ++ needle ++ rest) := by
        rw [List.append_assoc]
        exact (List.prefix_cons_inj c).mpr ((List.prefix_append_right_inj content).mpr
          ((List.dropLast_prefix needle).trans (List.prefix_append needle rest)))
      refine List.prefix_of_prefix_length_le hprefix hhead ?_
      have hpos := List.length_pos_iff.mpr hne
      rw [List.length_cons, List.length_append, List.length_dropLast]
      omega
    rw [List.cons_append, List.cons_append, cutAt?, hnone, ih h.2]
    rfl

/-- What ends in `c` ends before a part without `c`. -/
theorem infix_of_infix_append {c : Char} {a b : List Char} (h : needle ++ [c] <:+: a ++ b) (hc : c ∉ b) :
    needle ++ [c] <:+: a := by
  induction b using List.reverseRecOn with
  | nil => rwa [List.append_nil] at h
  | append_singleton b d ih =>
    rw [List.mem_append, not_or, List.mem_singleton] at hc
    rw [← List.append_assoc, List.infix_concat_iff] at h
    refine ih ?_ hc.1
    rcases h with h | h
    · rcases List.suffix_concat_iff.mp h with hnil | ⟨tail, heq, -⟩
      · exact absurd hnil (by simp)
      · exact absurd (List.append_singleton_inj.mp heq).2 hc.2
    · exact h

/-- A text is cut where it ends in the last character of `needle`, which stands nowhere else in it. -/
theorem cutAt?_append_last (needle : List Char) {c : Char} (hc : c ∉ needle)
    (h : ¬ needle ++ [c] <:+: content) (rest : List Char) :
    cutAt? (needle ++ [c]) (content ++ (needle ++ [c]) ++ rest) = some (content, rest) := by
  refine cutAt?_append (fun hinfix => h ?_) rest
  rw [List.dropLast_concat] at hinfix
  exact infix_of_infix_append hinfix hc

theorem prefix_of_prefix_append_cons {c : Char} (hc : c ∉ needle) {a b : List Char}
    (h : needle <+: a ++ c :: b) : needle <+: a := by
  induction a generalizing needle with
  | nil =>
    rcases List.prefix_cons_iff.mp h with rfl | ⟨tail, rfl, -⟩
    · exact List.nil_prefix
    · exact absurd List.mem_cons_self hc
  | cons d a ih =>
    rcases List.prefix_cons_iff.mp h with rfl | ⟨tail, rfl, htail⟩
    · exact List.nil_prefix
    · exact (List.prefix_cons_inj d).mpr (ih (fun hmem => hc (List.mem_cons_of_mem d hmem)) htail)

/-- What does not hold a character lies on one side of it. -/
theorem infix_append_cons_iff {c : Char} (hc : c ∉ needle) (a b : List Char) :
    needle <:+: a ++ c :: b ↔ needle <:+: a ∨ needle <:+: b := by
  constructor
  · intro h
    induction a with
    | nil =>
      rcases List.infix_cons_iff.mp h with hprefix | hinfix
      · exact Or.inl (prefix_of_prefix_append_cons (a := []) hc hprefix).isInfix
      · exact Or.inr hinfix
    | cons d a ih =>
      rcases List.infix_cons_iff.mp h with hprefix | hinfix
      · exact Or.inl (prefix_of_prefix_append_cons (a := d :: a) hc hprefix).isInfix
      · exact (ih hinfix).imp_left fun h => List.infix_cons_iff.mpr (Or.inr h)
  · rintro (h | h)
    · exact h.trans (List.prefix_append a (c :: b)).isInfix
    · exact h.trans ((List.suffix_cons c b).trans (List.suffix_append a (c :: b))).isInfix

/-- What is before a character, and holds none of it, is passed over in the search for it. -/
theorem forall_ne_of_notMem {c : Char} (h : c ∉ cs) : ∀ d ∈ cs, (d ≠ c : Bool) = true := by
  intro d hd
  simpa using fun e : d = c => h (e ▸ hd)

/-- A text is cut in one way at the first place of a character. -/
theorem append_cons_inj {c : Char} {a b x y : List Char} (ha : c ∉ a) (hb : c ∉ b)
    (h : a ++ c :: x = b ++ c :: y) : a = b ∧ x = y := by
  have hcut := congrArg (List.takeWhile (· ≠ c)) h
  rw [List.takeWhile_append_of_pos (forall_ne_of_notMem ha),
    List.takeWhile_append_of_pos (forall_ne_of_notMem hb)] at hcut
  obtain rfl : a = b := by simpa using hcut
  exact ⟨rfl, (List.cons.inj (List.append_cancel_left h)).2⟩

/-! ## Trimming -/

theorem trimStart_eq_self_iff : trimStart cs = cs ↔ ∀ c ∈ cs.head?, isBlank c = false := by
  cases cs with
  | nil => simp [trimStart]
  | cons c cs =>
    cases hc : isBlank c with
    | false => simp [trimStart, hc]
    | true =>
      have hlength : (cs.dropWhile isBlank).length < (c :: cs).length :=
        Nat.lt_succ_of_le (List.dropWhile_suffix isBlank).length_le
      simp only [trimStart, List.dropWhile_cons, hc, if_true, List.head?_cons, Option.mem_def,
        Option.some.injEq, forall_eq', Bool.true_eq_false, iff_false]
      intro heq
      rw [heq] at hlength
      exact lt_irrefl _ hlength

theorem trimEnd_eq (cs : List Char) : trimEnd cs = (trimStart cs.reverse).reverse :=
  dropEndWhile_eq isBlank cs

theorem trimEnd_eq_self_iff : trimEnd cs = cs ↔ ∀ c ∈ cs.getLast?, isBlank c = false := by
  rw [trimEnd_eq, List.reverse_eq_iff, trimStart_eq_self_iff, List.head?_reverse]

/-- What is trimmed away at the start is blank. -/
theorem trimStart_split (cs : List Char) :
    ∃ front, (∀ c ∈ front, isBlank c = true) ∧ cs = front ++ trimStart cs :=
  ⟨cs.takeWhile isBlank, fun _ hc => List.mem_takeWhile_imp hc, List.takeWhile_append_dropWhile.symm⟩

/-- What is trimmed away at the end is blank. -/
theorem trimEnd_split (cs : List Char) :
    ∃ back, (∀ c ∈ back, isBlank c = true) ∧ cs = trimEnd cs ++ back := by
  obtain ⟨front, hfront, hcs⟩ := trimStart_split cs.reverse
  refine ⟨front.reverse, fun c hc => hfront c (List.mem_reverse.mp hc), ?_⟩
  rw [trimEnd_eq, ← List.reverse_append, ← hcs, List.reverse_reverse]

theorem length_trimEnd_le (cs : List Char) : (trimEnd cs).length ≤ cs.length := by
  have hlength := (List.dropWhile_suffix isBlank (l := cs.reverse)).length_le
  rwa [List.length_reverse, ← List.length_reverse, ← trimStart, ← trimEnd_eq] at hlength

/-- Trimming leaves a text alone exactly if no blank stands at its ends. -/
theorem trim_eq_self_iff : trim cs = cs ↔
    (∀ c ∈ cs.head?, isBlank c = false) ∧ ∀ c ∈ cs.getLast?, isBlank c = false := by
  rw [← trimStart_eq_self_iff, ← trimEnd_eq_self_iff]
  constructor
  · intro h
    have hstart : trimStart cs = cs := by
      -- nothing is lost at the end, so nothing was lost at the start
      refine (List.dropWhile_suffix isBlank).eq_of_length_le ?_
      calc cs.length = (trim cs).length := by rw [h]
        _ ≤ (trimStart cs).length := length_trimEnd_le _
    exact ⟨hstart, by rwa [trim, hstart] at h⟩
  · rintro ⟨hstart, hend⟩
    rw [trim, hstart, hend]

theorem trimEnd_isPrefix (cs : List Char) : trimEnd cs <+: cs := by
  rw [trimEnd_eq, ← List.reverse_suffix, List.reverse_reverse]
  exact List.dropWhile_suffix isBlank

theorem trim_isInfix (cs : List Char) : trim cs <:+: cs :=
  (trimEnd_isPrefix (trimStart cs)).isInfix.trans (List.dropWhile_suffix isBlank).isInfix

theorem trimStart_trimStart (cs : List Char) : trimStart (trimStart cs) = trimStart cs :=
  List.dropWhile_idempotent isBlank cs

theorem trimEnd_trimEnd (cs : List Char) : trimEnd (trimEnd cs) = trimEnd cs := by
  rw [trimEnd_eq (trimEnd cs), trimEnd_eq cs, List.reverse_reverse, trimStart_trimStart]

/-- The two ends are trimmed on their own. -/
theorem trimStart_trimEnd (cs : List Char) : trimStart (trimEnd cs) = trimEnd (trimStart cs) := by
  induction cs with
  | nil => rfl
  | cons c cs ih =>
    have hcons : trimEnd (c :: cs) =
        if trimEnd cs = [] then if isBlank c then [] else [c] else c :: trimEnd cs := by
      unfold trimEnd
      rw [dropEndWhile]
      cases dropEndWhile isBlank cs <;> simp
    cases hc : isBlank c with
    | true =>
      have hskip : ∀ rest, trimStart (c :: rest) = trimStart rest := fun rest => by simp [trimStart, hc]
      rw [hskip, ← ih, hcons, hc]
      split
      · next hnil => rw [hnil]; rfl
      · exact hskip _
    | false =>
      have hkeep : ∀ rest, trimStart (c :: rest) = c :: rest := fun rest => by simp [trimStart, hc]
      rw [hkeep, hcons, hc]
      split
      · exact hkeep []
      · exact hkeep _

theorem trim_trimStart (cs : List Char) : trim (trimStart cs) = trim cs := by
  rw [trim, trimStart_trimStart, trim]

theorem trim_trimEnd (cs : List Char) : trim (trimEnd cs) = trim cs := by
  rw [trim, trimStart_trimEnd, trimEnd_trimEnd, trim]

theorem trim_trim (cs : List Char) : trim (trim cs) = trim cs := by
  rw [show trim cs = trimEnd (trimStart cs) from rfl, trim_trimEnd, trim_trimStart]
  rfl

theorem trimStart_append_cons {c : Char} (hc : isBlank c = false) (a b : List Char) :
    trimStart (a ++ c :: b) = trimStart a ++ c :: b := by
  unfold trimStart
  rw [List.dropWhile_append]
  cases h : a.dropWhile isBlank with
  | nil => simp [hc]
  | cons d rest => simp

theorem trimEnd_append_cons {c : Char} (hc : isBlank c = false) (a b : List Char) :
    trimEnd (a ++ c :: b) = a ++ c :: trimEnd b := by
  have hreverse : (a ++ c :: b).reverse = b.reverse ++ c :: a.reverse := by simp
  rw [trimEnd_eq, hreverse, trimStart_append_cons hc, trimEnd_eq]
  simp

/-- Around a character that is no blank each side is trimmed at its own end. -/
theorem trim_append_cons {c : Char} (hc : isBlank c = false) (a b : List Char) :
    trim (a ++ c :: b) = trimStart a ++ c :: trimEnd b := by
  rw [trim, trimStart_append_cons hc, trimEnd_append_cons hc]

end KeywordIndex.Text
