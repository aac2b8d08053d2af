namespace KeywordIndex.Text

/-!
# Comparison without ASCII case

Names of libraries, files and settings are compared with the letters A to Z folded and all other
characters as they are.
-/

/-- Folds A to Z to a to z and keeps all else. -/
def asciiLower (c : Char) : Char := if 'A' ≤ c ∧ c ≤ 'Z' then Char.ofNat (c.toNat + 32) else c

/-- A character is folded only if it is a capital letter. -/
theorem asciiLower_cases (c : Char) :
    asciiLower c = c ∨ ∃ n ∈ List.range' 65 26, c = Char.ofNat n ∧ asciiLower c = Char.ofNat (n + 32) := by
  unfold asciiLower
  split
  · next hcapital =>
    have hfirst : 65 ≤ c.toNat := hcapital.1
    have hlast : c.toNat ≤ 90 := hcapital.2
    exact Or.inr ⟨c.toNat, List.mem_range'_1.mpr (by omega), (Char.ofNat_toNat c).symm, rfl⟩
  · exact Or.inl rfl

/-- Equality up to the case of ASCII letters. -/
def asciiEqual (a b : String) : Bool := a.toList.map asciiLower == b.toList.map asciiLower

theorem asciiEqual_iff {a b : String} :
    asciiEqual a b = true ↔ a.toList.map asciiLower = b.toList.map asciiLower := by
  simp [asciiEqual]

end KeywordIndex.Text
