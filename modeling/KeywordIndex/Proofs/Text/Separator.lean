import KeywordIndex.Text.Lowercase
import KeywordIndex.Text.Split
import Mathlib.Data.List.Basic

namespace KeywordIndex.Text

/-! # Slashes in text

A text is cut at its slashes and put together again without loss (`split_join`), and the lowercase form
is taken between them (`lower_join`): a slash is neither cased nor case-ignorable, so no sigma looks past
it.
-/

/-! ## Cutting -/

section Generic

variable {α : Type}

theorem join_cons_cons (separator piece next : List α) (rest : List (List α)) :
    join separator (piece :: next :: rest) =
      piece ++ separator ++ join separator (next :: rest) := by
  rw [join]
  simp

variable [BEq α] [LawfulBEq α]

theorem split_of_not_mem {c : α} {piece : List α} (h : c ∉ piece) : split c piece = [piece] := by
  induction piece with
  | nil => rfl
  | cons d rest ih =>
    have hd : (d == c) = false := beq_eq_false_iff_ne.mpr fun e => h (by simp [e])
    have hrest : splitWhere (· == c) rest = [rest] := ih fun hmem => h (by simp [hmem])
    rw [split, splitWhere, hd, hrest]
    rfl

/-- A text is cut on both sides of a separator on its own. -/
theorem split_append (c : α) (before rest : List α) :
    split c (before ++ c :: rest) = split c before ++ split c rest := by
  unfold split
  induction before with
  | nil => simp [splitWhere]
  | cons d before ih =>
    rw [List.cons_append, splitWhere, splitWhere, ih]
    split
    · rfl
    · cases hsplit : splitWhere (· == c) before with
      | nil => exact absurd hsplit (splitWhere_ne_nil _ _)
      | cons piece pieces => rfl

/-- The pieces hold the characters of the text other than the separator. -/
theorem mem_split {c d : α} {cs piece : List α} (hpiece : piece ∈ split c cs) (hd : d ∈ piece) :
    d ∈ cs ∧ d ≠ c := by
  unfold split at hpiece
  induction cs generalizing piece with
  | nil =>
    simp only [splitWhere, List.mem_singleton] at hpiece
    subst hpiece
    cases hd
  | cons e cs ih =>
    rw [splitWhere] at hpiece
    split at hpiece
    · rcases List.mem_cons.mp hpiece with rfl | hpiece
      · cases hd
      · exact (ih hpiece hd).imp_left (List.mem_cons_of_mem _)
    · next hne =>
      have hne : e ≠ c := by simpa using hne
      split at hpiece
      · rw [List.mem_singleton] at hpiece
        subst hpiece
        rw [List.mem_singleton] at hd
        subst hd
        exact ⟨List.mem_cons_self, hne⟩
      · next first rest hsplit =>
        rcases List.mem_cons.mp hpiece with rfl | hpiece
        · rcases List.mem_cons.mp hd with rfl | hd
          · exact ⟨List.mem_cons_self, hne⟩
          · exact (ih (hsplit ▸ List.mem_cons_self) hd).imp_left (List.mem_cons_of_mem _)
        · exact (ih (hsplit ▸ List.mem_cons_of_mem _ hpiece) hd).imp_left (List.mem_cons_of_mem _)

/-- Pieces without the separator are found again in what they were joined to. -/
theorem split_join {c : α} {pieces : List (List α)} (hne : pieces ≠ [])
    (h : ∀ piece ∈ pieces, c ∉ piece) : split c (join [c] pieces) = pieces := by
  induction pieces with
  | nil => exact absurd rfl hne
  | cons piece rest ih =>
    have hpiece : c ∉ piece := h piece (by simp)
    cases rest with
    | nil => exact split_of_not_mem hpiece
    | cons next rest =>
      have hrest : split c (join [c] (next :: rest)) = next :: rest :=
        ih (by simp) fun other hother => h other (by simp [hother])
      rw [join_cons_cons, List.append_assoc, List.singleton_append, split_append,
        split_of_not_mem hpiece, hrest, List.singleton_append]

end Generic

theorem mem_join {c d : Char} {pieces : List (List Char)} (h : d ∈ join [c] pieces) :
    d = c ∨ ∃ piece ∈ pieces, d ∈ piece := by
  induction pieces with
  | nil => cases h
  | cons piece rest ih =>
    cases rest with
    | nil => exact Or.inr ⟨piece, by simp, h⟩
    | cons next rest =>
      rw [join_cons_cons, List.append_assoc, List.mem_append, List.singleton_append,
        List.mem_cons] at h
      rcases h with h | h | h
      · exact Or.inr ⟨piece, by simp, h⟩
      · exact Or.inl h
      · exact (ih h).imp_right fun ⟨other, hother, hd⟩ => ⟨other, List.mem_cons_of_mem _ hother, hd⟩

theorem head?_join {c : Char} {piece : List Char} (h : piece ≠ []) (rest : List (List Char)) :
    (join [c] (piece :: rest)).head? = piece.head? := by
  cases rest with
  | nil => rfl
  | cons next rest => rw [join_cons_cons, List.append_assoc, List.head?_append_of_ne_nil _ h]

theorem join_append {c : Char} {pieces others : List (List Char)} (hpieces : pieces ≠ [])
    (hothers : others ≠ []) :
    join [c] (pieces ++ others) = join [c] pieces ++ c :: join [c] others := by
  induction pieces with
  | nil => exact absurd rfl hpieces
  | cons piece rest ih =>
    cases rest with
    | nil =>
      obtain ⟨other, others, rfl⟩ := List.exists_cons_of_ne_nil hothers
      rw [List.singleton_append, join_cons_cons, List.append_assoc, List.singleton_append]
      rfl
    | cons next rest =>
      have hrest := ih (by simp)
      rw [List.cons_append] at hrest
      simp only [List.cons_append, join_cons_cons, hrest, List.append_assoc]

theorem join_eq_nil_iff {separator : Char} {pieces : List (List Char)} (h : ∀ piece ∈ pieces, piece ≠ []) :
    join [separator] pieces = [] ↔ pieces = [] := by
  cases pieces with
  | nil => simp [join]
  | cons piece rest =>
    have hpiece : piece ≠ [] := h piece (by simp)
    cases rest with
    | nil => simp [join, hpiece]
    | cons next rest => simp [join_cons_cons]

/-! ## Lowercase -/

/-- Whether the character is below the small letters and no capital letter. Then it is the lowercase form of
itself and of nothing else. -/
def isCaseless (d : Char) : Bool :=
  0 < d.toNat && d.toNat < 0x61 && !(0x41 ≤ d.toNat && d.toNat ≤ 0x5A)

theorem target_of_caseRuns : ∀ run ∈ caseRuns, 0x61 ≤ run.target := by decide +kernel

theorem lowerScalar_eq_iff {c d : Char} (hd : isCaseless d = true) : lowerScalar c = d ↔ c = d := by
  simp only [isCaseless, Bool.and_eq_true, decide_eq_true_eq, Bool.not_eq_true', Bool.and_eq_false_iff,
    decide_eq_false_iff_not] at hd
  obtain ⟨⟨h0, hsmall⟩, hcapital⟩ := hd
  -- a number that is no code gives the character 0, which `h0` keeps out
  have hcode : ∀ n, 0x61 ≤ n → Char.ofNat n ≠ d := by
    rintro n hn rfl
    by_cases hvalid : n.isValidChar
    · have hchar : Char.ofNat n = Char.ofNatAux n hvalid := dif_pos hvalid
      have hval : (Char.ofNat n).toNat = n := by
        rw [hchar]
        rfl
      omega
    · rw [show Char.ofNat n = _ from dif_neg hvalid] at h0
      exact absurd h0 (by decide)
  unfold lowerScalar
  split
  · split
    · next hupper =>
      have hlow : 0x41 ≤ c.toNat := hupper.1
      have hhigh : c.toNat ≤ 0x5A := hupper.2
      constructor
      · exact fun e => absurd e (hcode _ (by omega))
      · rintro rfl
        omega
    · rfl
  · next hbig =>
    cases hrun : caseRuns.find? (·.covers c.toNat) with
    | none => rfl
    | some run =>
      have htarget := target_of_caseRuns run (List.mem_of_find?_eq_some hrun)
      constructor
      · exact fun e => absurd e (hcode _ (by omega))
      · rintro rfl
        omega

theorem lowerChar_ne_nil (c : Char) : lowerChar c ≠ [] := by
  unfold lowerChar
  split <;> simp

theorem mem_lowerChar_iff {c d : Char} (hd : isCaseless d = true) : d ∈ lowerChar c ↔ c = d := by
  unfold lowerChar
  split
  · next hc =>
    subst hc
    constructor
    · intro hmem
      rcases List.mem_cons.mp hmem with rfl | hmem
      · exact absurd hd (by decide)
      · rw [List.mem_singleton] at hmem
        subst hmem
        exact absurd hd (by decide)
    · rintro rfl
      exact absurd hd (by decide)
  · rw [List.mem_singleton, eq_comm]
    exact lowerScalar_eq_iff hd

theorem isCaseless_lowerSigma (before rest : List Char) : isCaseless (lowerSigma before rest) = false := by
  unfold lowerSigma
  split <;> decide

/-- Caseless characters are in the lowercase form of a text if they are in the text. -/
theorem mem_lower_iff {d : Char} (hd : isCaseless d = true) (cs : List Char) : d ∈ lower cs ↔ d ∈ cs := by
  have hsigma : ∀ before rest : List Char, d ≠ lowerSigma before rest := by
    rintro before rest rfl
    rw [isCaseless_lowerSigma] at hd
    cases hd
  -- what stands before decides the form of a sigma alone, which is never `d`
  have general : ∀ before, d ∈ lowerFrom before cs ↔ d ∈ cs := by
    induction cs with
    | nil => simp [lowerFrom]
    | cons c cs ih =>
      intro before
      rw [lowerFrom, List.mem_append, ih, List.mem_cons]
      refine or_congr_left ?_
      split
      · next hc =>
        rw [List.mem_singleton]
        refine iff_of_false (hsigma _ _) ?_
        rintro rfl
        exact absurd hd (hc ▸ by decide)
      · rw [mem_lowerChar_iff hd, eq_comm]
  exact general []

theorem lowerFrom_eq_nil_iff {before cs : List Char} : lowerFrom before cs = [] ↔ cs = [] := by
  cases cs with
  | nil => simp [lowerFrom]
  | cons c cs =>
    simp only [lowerFrom, List.append_eq_nil_iff, reduceCtorEq, iff_false, not_and]
    intro h
    split at h
    · simp at h
    · exact absurd h (lowerChar_ne_nil c)

theorem lower_eq_nil_iff {cs : List Char} : lower cs = [] ↔ cs = [] := lowerFrom_eq_nil_iff

theorem lowerFrom_cons_of_caseless {c : Char} (hc : isCaseless c = true) (before cs : List Char) :
    lowerFrom before (c :: cs) = c :: lowerFrom (c :: before) cs := by
  have hsigma : c ≠ 'Σ' := by
    rintro rfl
    exact absurd hc (by decide)
  have hdot : c ≠ '\u0130' := by
    rintro rfl
    exact absurd hc (by decide)
  rw [lowerFrom, if_neg hsigma, lowerChar, if_neg hdot, (lowerScalar_eq_iff hc).mpr rfl,
    List.singleton_append]

/-- A text without letters is the lowercase form of itself and of no other. -/
theorem lower_eq_iff {cs ds : List Char} (h : ds.all isCaseless = true) : lower cs = ds ↔ cs = ds := by
  rw [List.all_eq_true] at h
  have general : ∀ before, lowerFrom before cs = ds ↔ cs = ds := by
    induction cs generalizing ds with
    | nil => simp [lowerFrom]
    | cons c cs ih =>
      intro before
      by_cases hc : isCaseless c = true
      · rw [lowerFrom_cons_of_caseless hc]
        cases ds with
        | nil => simp
        | cons d ds =>
          rw [List.cons_eq_cons, List.cons_eq_cons, ih (List.forall_mem_cons.mp h).2]
      · -- what a letter leads to is not in the text either
        constructor
        · intro e
          have hfirst : ∀ d ∈ if c = 'Σ' then [lowerSigma before cs] else lowerChar c,
              isCaseless d = true := fun d hd => h d (by rw [← e, lowerFrom]; simp [hd])
          split at hfirst
          · have hsigma := hfirst _ List.mem_cons_self
            rw [isCaseless_lowerSigma] at hsigma
            cases hsigma
          · obtain ⟨d, hd⟩ := List.exists_mem_of_ne_nil _ (lowerChar_ne_nil c)
            obtain rfl := (mem_lowerChar_iff (hfirst d hd)).mp hd
            exact absurd (hfirst c hd) hc
        · rintro rfl
          exact absurd (h c List.mem_cons_self) hc
  exact general []

/-! ## Sigmas at slashes -/

/-- No sigma looks past a slash. -/
theorem meetsCased_append_slash (before rest : List Char) :
    meetsCased (before ++ '/' :: rest) = meetsCased before := by
  have hignorable : caseIgnorableRanges.contains '/' = false := by decide +kernel
  have hcased : casedRanges.contains '/' = false := by decide +kernel
  unfold meetsCased
  rw [List.dropWhile_append]
  cases hdrop : before.dropWhile caseIgnorableRanges.contains with
  | nil => simp [hignorable, hcased]
  | cons c others => simp

/-- What stands before a text counts only for the sigmas that look back at it. -/
theorem lowerFrom_congr {before other : List Char}
    (h : ∀ ahead, meetsCased (ahead ++ before) = meetsCased (ahead ++ other)) (cs : List Char) :
    lowerFrom before cs = lowerFrom other cs := by
  induction cs generalizing before other with
  | nil => rfl
  | cons c cs ih =>
    have hnext : ∀ ahead, meetsCased (ahead ++ c :: before) = meetsCased (ahead ++ c :: other) := by
      intro ahead
      rw [List.append_cons, List.append_cons ahead c other]
      exact h (ahead ++ [c])
    rw [lowerFrom, lowerFrom, ih hnext, lowerSigma, lowerSigma, show meetsCased before = _ from h []]
    rfl

theorem lowerFrom_append_slash_left (before outer cs : List Char) :
    lowerFrom (before ++ '/' :: outer) cs = lowerFrom before cs := by
  -- what was read is kept backwards, so what stands before the slash is behind it
  refine lowerFrom_congr (fun ahead => ?_) cs
  rw [← List.append_assoc, meetsCased_append_slash]

theorem lowerFrom_append_slash (outer before rest : List Char) :
    lowerFrom outer (before ++ '/' :: rest) = lowerFrom outer before ++ '/' :: lower rest := by
  induction before generalizing outer with
  | nil =>
    have hslash : lowerChar '/' = ['/'] := by decide +kernel
    have hrest : lowerFrom ('/' :: outer) rest = lower rest :=
      lowerFrom_append_slash_left [] outer rest
    have hne : '/' ≠ 'Σ' := by decide
    have hnil : lowerFrom outer [] = [] := rfl
    rw [hnil, List.nil_append, List.nil_append, lowerFrom, if_neg hne, hslash, hrest]
    rfl
  | cons c before ih =>
    rw [List.cons_append, lowerFrom, lowerFrom, ih, List.append_assoc, lowerSigma, lowerSigma,
      meetsCased_append_slash]

theorem lower_append_slash (before rest : List Char) :
    lower (before ++ '/' :: rest) = lower before ++ '/' :: lower rest :=
  lowerFrom_append_slash [] before rest

/-- The lowercase form is taken between the slashes. -/
theorem lower_join (pieces : List (List Char)) :
    lower (join ['/'] pieces) = join ['/'] (pieces.map lower) := by
  induction pieces with
  | nil => rfl
  | cons piece rest ih =>
    cases rest with
    | nil => rfl
    | cons next rest =>
      rw [join_cons_cons, List.append_assoc, List.singleton_append, lower_append_slash, ih]
      simp only [List.map_cons, join_cons_cons, List.append_assoc, List.singleton_append]

end KeywordIndex.Text
