import KeywordIndex.Decimal.Binary

namespace KeywordIndex.Decimal

/-!
# Decimals with a set number of places

A number is rounded once, from its exact value. Main statement: `roundDiv_near`, the rounded quotient is
within half a unit of the exact one.
-/

/-- The whole number next to `numerator / denominator`; a half goes to the even one. -/
def roundDiv (numerator denominator : Nat) : Nat :=
  let down := numerator / denominator
  let twice := 2 * (numerator % denominator)
  if denominator < twice ∨ (twice = denominator ∧ down % 2 = 1) then down + 1 else down

theorem roundDiv_near (numerator : Nat) {denominator : Nat} (h : 0 < denominator) :
    2 * numerator ≤ (2 * roundDiv numerator denominator + 1) * denominator ∧
      2 * roundDiv numerator denominator * denominator ≤ 2 * numerator + denominator := by
  have exact := Nat.div_add_mod numerator denominator
  have small := Nat.mod_lt numerator h
  rw [Nat.mul_comm] at exact
  have up : (numerator / denominator + 1) * denominator =
      numerator / denominator * denominator + denominator := Nat.succ_mul ..
  simp only [roundDiv]
  split <;> simp only [Nat.add_mul, Nat.mul_assoc, Nat.one_mul] at * <;> omega

/-- The digits of `n`, with zeros in front up to the given width. -/
def padded (width n : Nat) : List Char :=
  let digits := Nat.toDigits 10 n
  List.replicate (width - digits.length) '0' ++ digits

/-- The number with the given number of digits after the point. -/
def fixed (places : Nat) (b : Binary) : String :=
  let (numerator, denominator) := b.fraction
  let unit := Nat.pow 10 places
  let scaled := roundDiv (numerator * unit) denominator
  let whole := Nat.toDigits 10 (scaled / unit)
  let sign := if b.negative then ['-'] else []
  String.ofList (sign ++ whole ++ '.' :: padded places (scaled % unit))

end KeywordIndex.Decimal
