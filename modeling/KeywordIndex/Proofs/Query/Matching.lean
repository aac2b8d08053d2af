import KeywordIndex.Proofs.Text.Cutting
import KeywordIndex.Proofs.Text.Separator
import KeywordIndex.Query.Score

namespace KeywordIndex.Query

open Text

/-! # Which names match

A name has a score for a query exactly if it `Matches`: the characters of the query appear in it in order,
in any case (`score?_isSome_iff`). Word starts are preferred on the way, but only where the rest of the query
still fits, so they never cost a match. A name matches itself, and nothing that is longer.
-/

/-- The characters of the query appear in the name in order, in any case. -/
def Matches (query name : List Char) : Prop := (lower (trim query)).Sublist (lower name)

instance (query name : List Char) : Decidable (Matches query name) :=
  inferInstanceAs (Decidable (List.Sublist _ _))

/-! ## The search -/

variable {c : Char} {query name behind : List Char} {before : Option Char}

theorem afterFirst?_eq_none (h : afterFirst? c name = none) : c ∉ name := by
  induction name with
  | nil => exact List.not_mem_nil
  | cons d name ih =>
    rw [afterFirst?] at h
    split at h
    · cases h
    · next hne => exact List.not_mem_cons_of_ne_of_not_mem (Ne.symm hne) (ih h)

/-- Behind the first `c` fits all that fits behind any. -/
theorem sublist_of_afterFirst? (h : afterFirst? c name = some behind) :
    (c :: query).Sublist name ↔ query.Sublist behind := by
  induction name with
  | nil => cases h
  | cons d name ih =>
    rw [afterFirst?] at h
    split at h
    · next heq =>
      obtain rfl := Option.some.inj h
      rw [heq, List.cons_sublist_cons]
    · next hne =>
      rw [← ih h, List.sublist_cons_iff]
      refine or_iff_left ?_
      rintro ⟨rest, heq, -⟩
      exact hne (List.cons.inj heq).1.symm

/-- A word start is taken only if the rest of the query fits behind it. -/
theorem sublist_of_afterWordStart? (h : afterWordStart? c query before name = some behind) :
    query.Sublist behind ∧ (c :: query).Sublist name := by
  induction name generalizing before with
  | nil => cases h
  | cons d name ih =>
    rw [afterWordStart?] at h
    split at h
    · next hstart =>
      obtain rfl := Option.some.inj h
      simp only [Bool.and_eq_true, decide_eq_true_eq, List.isSublist_iff_sublist] at hstart
      exact ⟨hstart.2, hstart.1.1 ▸ List.cons_sublist_cons.mpr hstart.2⟩
    · exact (ih h).imp_right fun h => h.cons d

theorem wordStartsFrom_isSome_iff :
    (wordStartsFrom before name query).isSome = true ↔ query.Sublist name := by
  induction query generalizing before name with
  | nil => simp [wordStartsFrom]
  | cons c query ih =>
    rw [wordStartsFrom]
    cases hfirst : afterFirst? c name with
    | none =>
      have hmem := afterFirst?_eq_none hfirst
      simp only [Option.isSome_none, Bool.false_eq_true, false_iff]
      exact fun hsub => hmem (hsub.subset List.mem_cons_self)
    | some behind =>
      cases hstart : afterWordStart? c query before name with
      | none => exact ih.trans (sublist_of_afterFirst? hfirst).symm
      | some later =>
        obtain ⟨hlater, hname⟩ := sublist_of_afterWordStart? hstart
        simp only [Option.isSome_map, ih]
        exact iff_of_true hlater hname

/-- A name has a score exactly if it matches. -/
theorem score?_isSome_iff : (score? query name).isSome = true ↔ Matches query name := by
  unfold score? Matches wordStarts?
  simp only
  split
  · next hempty => simp [List.isEmpty_iff.mp hempty]
  · rw [Option.isSome_map, wordStartsFrom_isSome_iff]

/-! ## Lengths -/

theorem length_lowerFrom (before cs : List Char) :
    (lowerFrom before cs).length = (cs.flatMap lowerChar).length := by
  induction cs generalizing before with
  | nil => rfl
  | cons c cs ih =>
    rw [lowerFrom, List.length_append, ih, List.flatMap_cons, List.length_append]
    split
    · next hc =>
      have hdot : c ≠ '\u0130' := hc ▸ by decide
      rw [lowerChar, if_neg hdot, List.length_singleton, List.length_singleton]
    · rfl

/-- The form of a sigma depends on what is around it, the length does not. -/
theorem length_lower_append (a b : List Char) :
    (lower (a ++ b)).length = (lower a).length + (lower b).length := by
  simp only [lower, length_lowerFrom, List.flatMap_append, List.length_append]

/-- A name matches itself. -/
theorem matches_self (h : trim name = name) : Matches name name := by
  rw [Matches, h]

/-- Nothing matches what is longer than it. -/
theorem not_matches_append_cons (hc : isBlank c = false)
    (hend : ∀ d ∈ (c :: name).getLast?, isBlank d = false) (lead : List Char) : ¬ Matches (lead ++ c :: name) name := by
  have htrim : trim (lead ++ c :: name) = trimStart lead ++ [c] ++ name := by
    rw [trim, trimStart_append_cons hc, List.append_assoc, List.singleton_append]
    refine trimEnd_eq_self_iff.mpr fun d hd => hend d ?_
    rwa [List.getLast?_append_of_ne_nil _ (List.cons_ne_nil c name)] at hd
  intro hmatches
  have hlength := hmatches.length_le
  rw [htrim, length_lower_append, length_lower_append] at hlength
  have hpos : 0 < (lower [c]).length :=
    List.length_pos_iff.mpr fun hnil => List.cons_ne_nil c [] (lower_eq_nil_iff.mp hnil)
  omega

end KeywordIndex.Query
