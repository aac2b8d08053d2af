import KeywordIndex.Proofs.Text.Cutting
import KeywordIndex.Proofs.Text.Words

namespace KeywordIndex.Text

/-! # Where a word breaks off

A capital sigma looks around for the nearest characters that are not case-ignorable, so its lowercase form
may change when a text is cut behind it. It does so in one way only: the text `BreaksWord` if a word began
before the sigma and goes on after the cut. Everywhere else the lowercase form of a text begins with that of
its initial part (`lowerFrom_append`). So what is typed of a name is found in it in lowercase, unless the
name is broken off behind a sigma (`lower_trim_sublist_iff`).
-/

variable {c : Char} {a b before tail rest front query lead : List Char}

/-! ## Looking for cased characters -/

theorem caseIgnorable_of_isBlank (h : isBlank c = true) : caseIgnorableRanges.contains c = false := by
  have hcodes : ∀ n ∈ blankCodes,
      (caseIgnorableRanges.any fun range => range.1 ≤ n && n ≤ range.2) = false := by decide +kernel
  exact hcodes _ (toNat_mem_blankCodes h)

theorem cased_of_isBlank (h : isBlank c = true) : casedRanges.contains c = false := by
  have hcodes : ∀ n ∈ blankCodes,
      (casedRanges.any fun range => range.1 ≤ n && n ≤ range.2) = false := by decide +kernel
  exact hcodes _ (toNat_mem_blankCodes h)

/-- The search passes over what is case-ignorable. -/
theorem meetsCased_append_of_ignorable (h : ∀ c ∈ a, caseIgnorableRanges.contains c = true)
    (b : List Char) : meetsCased (a ++ b) = meetsCased b := by
  unfold meetsCased
  rw [List.dropWhile_append_of_pos h]

/-- The search ends at the first character that is not case-ignorable. -/
theorem meetsCased_append_of_stop (h : ∃ c ∈ a, caseIgnorableRanges.contains c = false)
    (b : List Char) : meetsCased (a ++ b) = meetsCased a := by
  obtain ⟨c, hc, hstop⟩ := h
  unfold meetsCased
  rw [List.dropWhile_append]
  cases hdrop : a.dropWhile caseIgnorableRanges.contains with
  | nil =>
    have hall := List.dropWhile_eq_nil_iff.mp hdrop c hc
    rw [hstop] at hall
    cases hall
  | cons d others => simp

theorem meetsCased_of_blank (h : ∀ c ∈ a, isBlank c = true) : meetsCased a = false := by
  cases a with
  | nil => rfl
  | cons c rest =>
    have hc : isBlank c = true := h c List.mem_cons_self
    simp [meetsCased, caseIgnorable_of_isBlank hc, cased_of_isBlank hc]

/-- Nothing is found among blanks. -/
theorem meetsCased_append_blank (h : ∀ c ∈ b, isBlank c = true) (a : List Char) :
    meetsCased (a ++ b) = meetsCased a := by
  by_cases hstop : ∃ c ∈ a, caseIgnorableRanges.contains c = false
  · exact meetsCased_append_of_stop hstop b
  · have hall : ∀ c ∈ a, caseIgnorableRanges.contains c = true := by simpa using hstop
    have hnone := meetsCased_append_of_ignorable hall []
    rw [List.append_nil] at hnone
    rw [meetsCased_append_of_ignorable hall, meetsCased_of_blank h, hnone]
    rfl

/-! ## Words that are broken off -/

/-- Behind a sigma that stands between `before`, read backwards, and `tail`, the text breaks off within a
word that goes on in `rest`. -/
structure BreaksWord (before tail rest : List Char) : Prop where
  ignorable : ∀ c ∈ tail, caseIgnorableRanges.contains c = true
  begun : meetsCased before = true
  continued : meetsCased rest = true

theorem lowerSigma_append (h : ¬ BreaksWord before tail rest) :
    lowerSigma before (tail ++ rest) = lowerSigma before tail := by
  unfold lowerSigma
  cases hbegun : meetsCased before with
  | false => rfl
  | true =>
    by_cases hstop : ∃ c ∈ tail, caseIgnorableRanges.contains c = false
    · rw [meetsCased_append_of_stop hstop]
    · -- the sigma looks past the cut, where no word goes on
      have hall : ∀ c ∈ tail, caseIgnorableRanges.contains c = true := by simpa using hstop
      have hnone := meetsCased_append_of_ignorable hall []
      rw [List.append_nil] at hnone
      have hrest : meetsCased rest = false := by
        rw [Bool.eq_false_iff]
        exact fun hcontinued => h ⟨hall, hbegun, hcontinued⟩
      rw [meetsCased_append_of_ignorable hall, hrest, hnone]
      rfl

/-- A sigma behind which a word is broken off is final before the cut alone. -/
theorem BreaksWord.lowerSigma_eq (h : BreaksWord before tail rest) :
    lowerSigma before tail = 'ς' ∧ lowerSigma before (tail ++ rest) = 'σ' := by
  have hnone := meetsCased_append_of_ignorable h.ignorable []
  rw [List.append_nil] at hnone
  have hend : meetsCased tail = false := hnone
  have hcontinued : meetsCased (tail ++ rest) = true := by
    rw [meetsCased_append_of_ignorable h.ignorable, h.continued]
  simp [lowerSigma, h.begun, hend, hcontinued]

/-- A text that does not break off within a word behind a sigma has its lowercase form wherever it goes
on. -/
theorem lowerFrom_append (h : ∀ lead tail, a = lead ++ 'Σ' :: tail →
    ¬ BreaksWord (lead.reverse ++ before) tail rest) :
    lowerFrom before (a ++ rest) = lowerFrom before a ++ lowerFrom (a.reverse ++ before) rest := by
  induction a generalizing before with
  | nil => rfl
  | cons c a ih =>
    have hrest := ih fun lead tail ha => by
      have hbreaks := h (c :: lead) tail (by rw [ha, List.cons_append])
      rwa [List.reverse_cons, List.append_assoc, List.singleton_append] at hbreaks
    have hfirst : (if c = 'Σ' then [lowerSigma before (a ++ rest)] else lowerChar c) =
        if c = 'Σ' then [lowerSigma before a] else lowerChar c := by
      split
      · next hc =>
        have hbreaks : ¬ BreaksWord before a rest := h [] a (by rw [hc, List.nil_append])
        rw [lowerSigma_append hbreaks]
      · rfl
    rw [List.cons_append, lowerFrom, hfirst, hrest, lowerFrom, List.append_assoc, List.reverse_cons,
      List.append_assoc, List.singleton_append]

/-- No sigma before another one looks past it. -/
theorem exists_lowerFrom_append_sigma (before a : List Char) : ∃ lowered, ∀ tail,
    lowerFrom before (a ++ 'Σ' :: tail) = lowered ++
      lowerSigma (a.reverse ++ before) tail :: lowerFrom ('Σ' :: (a.reverse ++ before)) tail := by
  have hstop : caseIgnorableRanges.contains 'Σ' = false := by decide +kernel
  induction a generalizing before with
  | nil =>
    refine ⟨[], fun tail => ?_⟩
    rw [List.nil_append, lowerFrom, if_pos rfl]
    rfl
  | cons c a ih =>
    obtain ⟨lowered, hlowered⟩ := ih (c :: before)
    have hsigma : ∀ tail, lowerSigma before (a ++ 'Σ' :: tail) = lowerSigma before (a ++ ['Σ']) := by
      intro tail
      unfold lowerSigma
      rw [List.append_cons, meetsCased_append_of_stop ⟨'Σ', by simp, hstop⟩]
    refine ⟨(if c = 'Σ' then [lowerSigma before (a ++ ['Σ'])] else lowerChar c) ++ lowered,
      fun tail => ?_⟩
    rw [List.cons_append, lowerFrom, hsigma, hlowered, List.reverse_cons]
    simp only [List.append_assoc, List.singleton_append]

/-! ## Blanks at the ends -/

theorem lowerChar_of_isBlank (h : isBlank c = true) : lowerChar c = [c] :=
  (lowerChar_of_settled (isSettled_of_isBlank h)).2

/-- Leading blanks stay, and do not count for what follows them. -/
theorem lower_append_of_blank (h : ∀ c ∈ front, isBlank c = true) (cs : List Char) :
    lower (front ++ cs) = front ++ lower cs := by
  have hsigma : 'Σ' ∉ front := fun hmem => absurd (h _ hmem) (by decide)
  have hfront : lowerFrom [] front = front := by
    rw [lowerFrom_eq_flatMap hsigma, List.flatMap_congr fun c hc => lowerChar_of_isBlank (h c hc),
      List.flatMap_singleton']
  have hcut : lowerFrom [] (front ++ cs) = lowerFrom [] front ++ lowerFrom (front.reverse ++ []) cs := by
    refine lowerFrom_append fun lead tail heq => ?_
    exact absurd (heq ▸ by simp) hsigma
  have hbefore : lowerFrom (front.reverse ++ []) cs = lowerFrom [] cs := by
    refine lowerFrom_congr (fun ahead => ?_) cs
    rw [List.append_nil, List.append_nil,
      meetsCased_append_blank fun c hc => h c (List.mem_reverse.mp hc)]
  rw [lower, hcut, hfront, hbefore, lower]

/-- A character whose lowercase form holds a blank is that blank. -/
theorem eq_of_mem_lowerChar_of_isBlank {d : Char} (hd : d ∈ lowerChar c) (h : isBlank d = true) :
    d = c := by
  have htargets : ∀ run ∈ mappedRuns, ∀ n ∈ blankCodes,
      ¬ (run.target ≤ n ∧ n ≤ run.target + (run.last - run.first)) := by decide +kernel
  unfold lowerChar at hd
  split at hd
  · simp only [List.mem_cons, List.not_mem_nil, or_false] at hd
    rcases hd with rfl | rfl
    · exact absurd h (by decide)
    · exact absurd h (by decide)
  · rw [List.mem_singleton] at hd
    rcases lowerScalar_cases c with ⟨hsame, -⟩ | ⟨run, hrun, k, hk, -, hmapped⟩
    · exact hd.trans hsame
    · -- no run leads to a blank, and what is no code point gives the character 0
      have hcode := toNat_mem_blankCodes h
      rw [hd, hmapped] at hcode
      by_cases hvalid : (run.target + k).isValidChar
      · rw [show Char.ofNat (run.target + k) = Char.ofNatAux _ hvalid from dif_pos hvalid] at hcode
        exact absurd ⟨Nat.le_add_right _ _, Nat.add_le_add_left hk _⟩ (htargets run hrun _ hcode)
      · rw [show Char.ofNat (run.target + k) = _ from dif_neg hvalid] at hcode
        exact absurd hcode (by decide)

/-- A text that does not begin with a blank does not do so in lowercase. -/
theorem isBlank_head?_lower (h : ∀ c ∈ a.head?, isBlank c = false) :
    ∀ d ∈ (lower a).head?, isBlank d = false := by
  intro d hd
  cases a with
  | nil => cases hd
  | cons c rest =>
    rw [lower, lowerFrom] at hd
    rw [Bool.eq_false_iff]
    intro hblank
    split at hd
    · obtain rfl : lowerSigma [] rest = d := by simpa using hd
      rw [lowerSigma] at hblank
      split at hblank <;> exact absurd hblank (by decide)
    · obtain ⟨first, others, hlowered⟩ := List.exists_cons_of_ne_nil (lowerChar_ne_nil c)
      rw [hlowered] at hd
      obtain rfl : first = d := by simpa using hd
      have hsame := eq_of_mem_lowerChar_of_isBlank (hlowered ▸ List.mem_cons_self) hblank
      have hfirst := h c rfl
      rw [← hsame, hblank] at hfirst
      cases hfirst

/-- What does not begin with a blank is found behind leading blanks. -/
theorem sublist_append_blank_iff (hfront : ∀ c ∈ front, isBlank c = true)
    (hquery : ∀ c ∈ query.head?, isBlank c = false) : query.Sublist (front ++ b) ↔ query.Sublist b := by
  induction front with
  | nil => rfl
  | cons d front ih =>
    rw [List.cons_append, List.sublist_cons_iff, ih fun c hc => hfront c (List.mem_cons_of_mem d hc)]
    refine or_iff_left ?_
    rintro ⟨more, rfl, -⟩
    have hblank := hfront d List.mem_cons_self
    rw [hquery d rfl] at hblank
    cases hblank

/-! ## What is typed of a name -/

theorem lower_trim_sublist (typed : List Char) : (lower (trim typed)).Sublist (lower typed) := by
  obtain ⟨front, hfront, htyped⟩ := trimStart_split typed
  obtain ⟨back, hback, hstart⟩ := trimEnd_split (trimStart typed)
  have hlower : lower (trim typed ++ back) =
      lower (trim typed) ++ lowerFrom ((trim typed).reverse ++ []) back := by
    refine lowerFrom_append fun lead tail _ hbreaks => ?_
    have hcontinued := hbreaks.continued
    rw [meetsCased_of_blank hback] at hcontinued
    cases hcontinued
  conv_rhs => rw [htyped, lower_append_of_blank hfront, hstart, ← trim, hlower]
  exact (List.sublist_append_left _ _).trans (List.sublist_append_right _ _)

/-- What is typed of a name up to a sigma behind which a word is broken off is found in the name exactly if
a final sigma comes later, and what was typed behind the sigma after it. -/
theorem lower_trim_sublist_of_breaks (h : BreaksWord lead.reverse tail rest) :
    (lower (trim (lead ++ 'Σ' :: tail))).Sublist (lower (lead ++ 'Σ' :: tail ++ rest)) ↔
      ('ς' :: lower tail).Sublist (lowerFrom ('Σ' :: lead.reverse) (tail ++ rest)) := by
  have hsigma : isBlank 'Σ' = false := by decide
  have htail : trimEnd tail = tail := by
    refine trimEnd_eq_self_iff.mpr fun c hc => ?_
    have hignorable := h.ignorable c (List.mem_of_getLast? hc)
    rw [Bool.eq_false_iff]
    intro hblank
    rw [caseIgnorable_of_isBlank hblank] at hignorable
    cases hignorable
  obtain ⟨front, hfront, hlead⟩ := trimStart_split lead
  generalize hword : trimStart lead = word at hlead
  -- the blanks before the word change nothing for what comes after them
  have hback : ∀ c ∈ front.reverse, isBlank c = true := fun c hc => hfront c (List.mem_reverse.mp hc)
  have hreverse : lead.reverse = word.reverse ++ front.reverse := by rw [hlead, List.reverse_append]
  have hbreaks : BreaksWord word.reverse tail rest := by
    refine ⟨h.ignorable, ?_, h.continued⟩
    have hbegun := h.begun
    rwa [hreverse, meetsCased_append_blank hback] at hbegun
  obtain ⟨hfinal, hinner⟩ := hbreaks.lowerSigma_eq
  obtain ⟨lowered, hlowered⟩ := exists_lowerFrom_append_sigma [] word
  simp only [List.append_nil] at hlowered
  have htyped : trim (lead ++ 'Σ' :: tail) = word ++ 'Σ' :: tail := by
    rw [trim_append_cons hsigma, hword, htail]
  have hquery : lower (word ++ 'Σ' :: tail) = lowered ++ 'ς' :: lower tail := by
    have hnone : 'Σ' ∉ tail := fun hmem => absurd (h.ignorable _ hmem) (by decide +kernel)
    rw [lower, hlowered, hfinal, lower, lowerFrom_eq_flatMap hnone, lowerFrom_eq_flatMap hnone]
  have hname : lower (lead ++ 'Σ' :: tail ++ rest) =
      front ++ (lowered ++ 'σ' :: lowerFrom ('Σ' :: lead.reverse) (tail ++ rest)) := by
    have hbefore : lowerFrom ('Σ' :: lead.reverse) (tail ++ rest) =
        lowerFrom ('Σ' :: word.reverse) (tail ++ rest) := by
      refine lowerFrom_congr (fun ahead => ?_) _
      rw [hreverse, ← List.cons_append, ← List.append_assoc, meetsCased_append_blank hback]
    rw [hbefore, hlead, List.append_assoc, List.append_assoc, List.cons_append,
      lower_append_of_blank hfront, lower, hlowered, hinner]
  have hhead : ∀ c ∈ (lowered ++ 'ς' :: lower tail).head?, isBlank c = false := by
    have htrimmed : trimStart (word ++ 'Σ' :: tail) = word ++ 'Σ' :: tail := by
      rw [trimStart_append_cons hsigma, ← hword, trimStart_trimStart]
    exact hquery ▸ isBlank_head?_lower (trimStart_eq_self_iff.mp htrimmed)
  rw [htyped, hquery, hname, sublist_append_blank_iff hfront hhead, List.append_sublist_append_left,
    List.sublist_cons_iff]
  refine or_iff_left ?_
  rintro ⟨_, heq, -⟩
  exact absurd (List.cons.inj heq).1 (by decide)

/-- What is typed of a name is found in it, unless it breaks off within a word behind a sigma: then exactly
if a final sigma comes later in the name, and what was typed behind the sigma after it. -/
theorem lower_trim_sublist_iff (typed rest : List Char) :
    (lower (trim typed)).Sublist (lower (typed ++ rest)) ↔
      ∀ lead tail, typed = lead ++ 'Σ' :: tail → BreaksWord lead.reverse tail rest →
        ('ς' :: lower tail).Sublist (lowerFrom ('Σ' :: lead.reverse) (tail ++ rest)) := by
  constructor
  · rintro hsub lead tail rfl hbreaks
    exact (lower_trim_sublist_of_breaks hbreaks).mp hsub
  · intro h
    by_cases hbreaks : ∃ lead tail, typed = lead ++ 'Σ' :: tail ∧ BreaksWord lead.reverse tail rest
    · obtain ⟨lead, tail, rfl, hbreaks⟩ := hbreaks
      exact (lower_trim_sublist_of_breaks hbreaks).mpr (h lead tail rfl hbreaks)
    · have hlower : lower (typed ++ rest) = lower typed ++ lowerFrom (typed.reverse ++ []) rest := by
        refine lowerFrom_append fun lead tail htyped hother => hbreaks ⟨lead, tail, htyped, ?_⟩
        rwa [List.append_nil] at hother
      rw [hlower]
      exact (lower_trim_sublist typed).trans (List.sublist_append_left _ _)

end KeywordIndex.Text
