import KeywordIndex.Text.Lowercase
import Mathlib.Data.List.Basic

namespace KeywordIndex.Text

/-! # Lowercase forms are stable

No mapping leads to a character that is mapped further, and none to a sigma, whose form would depend on its
place. So what is in lowercase stays as it is (`lower_lower`).
-/

/-- All code points that are mapped: the capital letters of ASCII, the I with a dot, and the others. -/
def mappedRuns : List CaseRun := ⟨0x41, 0x5A, 1, 0x61⟩ :: ⟨0x130, 0x130, 1, 0x69⟩ :: caseRuns

/-- Whether the character with the code point `n` is its own lowercase form, wherever it stands. -/
def isSettled (n : Nat) : Bool := mappedRuns.all (!·.covers n)

theorem isSettled_iff {n : Nat} : isSettled n = true ↔
    (n < 0x41 ∨ 0x5A < n) ∧ n ≠ 0x130 ∧ ∀ run ∈ caseRuns, run.covers n = false := by
  have hletters : CaseRun.covers ⟨0x41, 0x5A, 1, 0x61⟩ n = false ↔ n < 0x41 ∨ 0x5A < n := by
    simp [CaseRun.covers, Nat.mod_one]
    omega
  have hdot : CaseRun.covers ⟨0x130, 0x130, 1, 0x69⟩ n = false ↔ n ≠ 0x130 := by
    simp [CaseRun.covers, Nat.mod_one]
    omega
  simp only [isSettled, mappedRuns, List.all_cons, Bool.and_eq_true, Bool.not_eq_true', List.all_eq_true,
    hletters, hdot]

/-! ## No mapping leads into another -/

/-- Whether what the run leads to is outside of the other one, or between the code points that it maps. -/
def CaseRun.avoids (run other : CaseRun) : Bool :=
  (run.target + (run.last - run.first)).blt other.first || other.last.blt run.target ||
    ((run.step.beq 2 || run.first.beq run.last) && other.step.beq 2 &&
      ((run.target + other.first) % 2).beq 1)

theorem CaseRun.not_covers_of_avoids {run other : CaseRun} (h : run.avoids other = true) {k : Nat}
    (hk : k ≤ run.last - run.first) (hstep : k % run.step = 0) : other.covers (run.target + k) = false := by
  simp only [avoids, Bool.or_eq_true, Bool.and_eq_true, Nat.blt_eq, Nat.beq_eq] at h
  simp only [covers, Bool.and_eq_false_iff, decide_eq_false_iff_not, beq_eq_false_iff_ne]
  rcases h with (hbelow | habove) | ⟨⟨hrun, hother⟩, hparity⟩
  · omega
  · omega
  · -- both go in steps of two, and start at code points of different parity
    rw [hother]
    rcases hrun with htwo | hsingle
    · rw [htwo] at hstep
      omega
    · omega

theorem avoids_mappedRuns : ∀ run ∈ mappedRuns, ∀ other ∈ mappedRuns, run.avoids other = true := by
  have h : (mappedRuns.all fun run => mappedRuns.all run.avoids) = true := by decide +kernel
  simpa using h

theorem isSettled_target {run : CaseRun} (hrun : run ∈ mappedRuns) {k : Nat}
    (hk : k ≤ run.last - run.first) (hstep : k % run.step = 0) : isSettled (run.target + k) = true := by
  simp only [isSettled, List.all_eq_true, Bool.not_eq_true']
  exact fun other hother => CaseRun.not_covers_of_avoids (avoids_mappedRuns run hrun other hother) hk hstep

/-- A number that is no code point gives the first character, which is settled. -/
theorem isSettled_toNat_ofNat {n : Nat} (h : isSettled n = true) :
    isSettled (Char.ofNat n).toNat = true := by
  by_cases hvalid : n.isValidChar
  · have hchar : Char.ofNat n = Char.ofNatAux n hvalid := dif_pos hvalid
    rw [hchar]
    exact h
  · rw [show Char.ofNat n = _ from dif_neg hvalid]
    decide +kernel

/-! ## Lowercase forms -/

theorem first_caseRuns : ∀ run ∈ caseRuns, 128 ≤ run.first := by decide +kernel

/-- A character is replaced by itself, or by what a run leads to. -/
theorem lowerScalar_cases (c : Char) :
    lowerScalar c = c ∧ (c ≠ '\u0130' → isSettled c.toNat = true) ∨
      ∃ run ∈ mappedRuns, ∃ k ≤ run.last - run.first, k % run.step = 0 ∧
        lowerScalar c = Char.ofNat (run.target + k) := by
  unfold lowerScalar
  split
  · next hascii =>
    split
    · next hupper =>
      have hlow : 0x41 ≤ c.toNat := hupper.1
      have hhigh : c.toNat ≤ 0x5A := hupper.2
      right
      refine ⟨⟨0x41, 0x5A, 1, 0x61⟩, List.mem_cons_self, c.toNat - 0x41, ?_, Nat.mod_one _, ?_⟩
      · simp only
        omega
      · rw [show c.toNat + 32 = 0x61 + (c.toNat - 0x41) by omega]
    · next hupper =>
      have hletter : ¬ (0x41 ≤ c.toNat ∧ c.toNat ≤ 0x5A) := hupper
      left
      refine ⟨rfl, fun _ => isSettled_iff.mpr ⟨by omega, by omega, fun run hrun => ?_⟩⟩
      have hfirst := first_caseRuns run hrun
      simp [CaseRun.covers, show ¬ run.first ≤ c.toNat by omega]
  · next hascii =>
    split
    · next run hrun =>
      have hcovers := List.find?_some hrun
      simp only [CaseRun.covers, Bool.and_eq_true, decide_eq_true_eq, beq_iff_eq] at hcovers
      have hmem : run ∈ mappedRuns :=
        List.mem_cons_of_mem _ (List.mem_cons_of_mem _ (List.mem_of_find?_eq_some hrun))
      exact .inr ⟨run, hmem, c.toNat - run.first, by omega, hcovers.2, rfl⟩
    · next hnone =>
      rw [List.find?_eq_none] at hnone
      exact .inl ⟨rfl, fun h => isSettled_iff.mpr ⟨by omega, fun e => h (Char.toNat_inj.mp e),
        fun run hrun => by simpa using hnone run hrun⟩⟩

theorem isSettled_lowerScalar {c : Char} (h : c ≠ '\u0130') :
    isSettled (lowerScalar c).toNat = true := by
  rcases lowerScalar_cases c with ⟨hsame, hsettled⟩ | ⟨run, hrun, k, hk, hstep, hmapped⟩
  · rw [hsame]
    exact hsettled h
  · rw [hmapped]
    exact isSettled_toNat_ofNat (isSettled_target hrun hk hstep)

theorem isSettled_of_mem_lowerChar {c d : Char} (h : d ∈ lowerChar c) : isSettled d.toNat = true := by
  unfold lowerChar at h
  split at h
  · rcases List.mem_cons.mp h with rfl | h
    · decide +kernel
    · rw [List.mem_singleton.mp h]
      decide +kernel
  · next hdot =>
    rw [List.mem_singleton.mp h]
    exact isSettled_lowerScalar hdot

/-- Every character of a lowercase form is settled. -/
theorem isSettled_of_mem_lowerFrom {before cs : List Char} {d : Char} (h : d ∈ lowerFrom before cs) :
    isSettled d.toNat = true := by
  induction cs generalizing before with
  | nil => cases h
  | cons c cs ih =>
    rw [lowerFrom, List.mem_append] at h
    rcases h with h | h
    · split at h
      · rw [List.mem_singleton.mp h, lowerSigma]
        split <;> decide +kernel
      · exact isSettled_of_mem_lowerChar h
    · exact ih h

theorem lowerChar_of_settled {c : Char} (h : isSettled c.toNat = true) :
    c ≠ '\u03A3' ∧ lowerChar c = [c] := by
  have hsigma : c ≠ '\u03A3' := by
    rintro rfl
    exact absurd h (by decide +kernel)
  have hdot : c ≠ '\u0130' := by
    rintro rfl
    exact absurd h (by decide +kernel)
  obtain ⟨hupper, -, hcovers⟩ := isSettled_iff.mp h
  refine ⟨hsigma, ?_⟩
  rw [lowerChar, if_neg hdot]
  congr 1
  unfold lowerScalar
  split
  · refine if_neg fun hletter => ?_
    have hlow : 0x41 ≤ c.toNat := hletter.1
    have hhigh : c.toNat ≤ 0x5A := hletter.2
    omega
  · rw [List.find?_eq_none.mpr fun run hrun => by simp [hcovers run hrun]]

/-- What is in lowercase stays as it is. -/
theorem lower_lower (cs : List Char) : lower (lower cs) = lower cs := by
  have hsettled : ∀ c ∈ lower cs, c ≠ '\u03A3' ∧ lowerChar c = [c] :=
    fun c hc => lowerChar_of_settled (isSettled_of_mem_lowerFrom hc)
  have hsigma : '\u03A3' ∉ lower cs := fun hmem => (hsettled _ hmem).1 rfl
  rw [lower, lowerFrom_eq_flatMap hsigma, List.flatMap_congr fun c hc => (hsettled c hc).2,
    List.flatMap_singleton']

end KeywordIndex.Text
