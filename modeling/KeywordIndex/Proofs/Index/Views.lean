import KeywordIndex.Index.Views
import Mathlib.Data.List.Nodup

namespace KeywordIndex

/-! # Distinct elements

`distinct` keeps the elements of a list, each once.
-/

section Distinct

variable {α : Type} [DecidableEq α] {a : α} {as : List α}

theorem mem_distinct : a ∈ distinct as ↔ a ∈ as := by
  -- the fold starts from what has been seen, so the induction is on the rest, for all that was seen
  have general : ∀ (as seen : List α),
      a ∈ as.foldl (fun seen a => if a ∈ seen then seen else seen ++ [a]) seen ↔ a ∈ seen ∨ a ∈ as := by
    intro as
    induction as with
    | nil => simp
    | cons b rest ih =>
      intro seen
      rw [List.foldl_cons, ih]
      split
      · next hb =>
        rw [List.mem_cons]
        constructor
        · exact fun h => h.imp_right Or.inr
        · rintro (h | rfl | h)
          · exact Or.inl h
          · exact Or.inl hb
          · exact Or.inr h
      · rw [List.mem_append, List.mem_singleton, List.mem_cons, or_assoc]
  simpa [distinct] using general as []

theorem nodup_distinct (as : List α) : (distinct as).Nodup := by
  refine List.foldlRecOn (motive := List.Nodup) as _ List.nodup_nil fun seen hseen a _ => ?_
  split
  · exact hseen
  · next ha => exact List.nodup_append.mpr ⟨hseen, List.nodup_singleton a, by grind⟩

end Distinct

end KeywordIndex
