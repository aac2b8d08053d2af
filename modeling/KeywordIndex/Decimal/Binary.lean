namespace KeywordIndex.Decimal

/-!
# Binary fractions

A finite floating point number is a whole number times a power of two. Decimal forms are worked out from
these two in exact arithmetic.
-/

/-- The number `significand * 2 ^ exponent`, or its negative. -/
structure Binary where
  negative : Bool
  significand : Nat
  exponent : Int
  deriving DecidableEq, Repr

namespace Binary

/-- The significand of a power of two, in which only the first of 53 bits is set. -/
def leadingBit : Nat := 0x10000000000000

/-- The bit behind which a double has its exponent and fraction. -/
def signBit : Nat := 0x8000000000000000

/-- Reads the bits of a finite double. -/
def ofBits (bits : Nat) : Binary :=
  let fraction := bits % leadingBit
  let biased : Nat := bits / leadingBit % 2048
  let negative := bits / signBit % 2 == 1
  if biased = 0 then ⟨negative, fraction, -1074⟩
  else ⟨negative, fraction + leadingBit, Int.ofNat biased - 1075⟩

/-- Reads a finite double. -/
def ofFloat (x : Float) : Binary := ofBits x.toBits.toNat

/-- Whether the double below the number is only half as far away as the one above. -/
def isNarrowBelow (b : Binary) : Bool := b.significand == leadingBit && -1074 < b.exponent

/-- The magnitude as a fraction: numerator and denominator. -/
def fraction (b : Binary) : Nat × Nat :=
  if 0 ≤ b.exponent then (b.significand * Nat.pow 2 b.exponent.toNat, 1)
  else (b.significand, Nat.pow 2 (-b.exponent).toNat)

end Binary

end KeywordIndex.Decimal
