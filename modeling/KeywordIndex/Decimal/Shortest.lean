import KeywordIndex.Decimal.Fixed

namespace KeywordIndex.Decimal

/-!
# Shortest decimals

A double is written with the fewest digits that read back as the same double, and of these the nearest.
Numbers whose first digit stands from five places behind the point to sixteen before it are written out;
all others get an exponent with its sign.
-/

/-- The number `digits * 10 ^ exponent`. -/
structure Scaled where
  digits : Nat
  exponent : Int
  deriving DecidableEq, Repr

/-- `n * 10 ^ exponent` as a fraction. -/
def tenths (n : Nat) (exponent : Int) : Nat × Nat :=
  if 0 ≤ exponent then (n * Nat.pow 10 exponent.toNat, 1) else (n, Nat.pow 10 (-exponent).toNat)

/-- The exponent of the first digit of a positive fraction. -/
def leadingExponent (numerator denominator : Nat) : Int :=
  if denominator ≤ numerator then ((Nat.toDigits 10 (numerator / denominator)).length : Int) - 1
  else
    match (List.range 400).find? fun k => denominator ≤ numerator * Nat.pow 10 k with
    | some k => -(k : Int)
    | none => -400

/-- Whether the decimal reads back as the given number. -/
def readsBackAs (b : Binary) (d : Scaled) : Bool :=
  let quarter : Binary := ⟨false, 4 * b.significand, b.exponent - 2⟩
  let below := { quarter with
    significand := quarter.significand - (if b.isNarrowBelow then 1 else 2) }.fraction
  let above := { quarter with significand := quarter.significand + 2 }.fraction
  let (numerator, denominator) := tenths d.digits d.exponent
  let low := below.1 * denominator
  let high := above.1 * denominator
  if b.significand % 2 = 0 then low ≤ numerator * below.2 ∧ numerator * above.2 ≤ high
  else low < numerator * below.2 ∧ numerator * above.2 < high

/-- The neighbours of the number on the grid of multiples of `10 ^ exponent`, the nearer one first. -/
def neighbours (b : Binary) (exponent : Int) : List Scaled :=
  let (numerator, denominator) := b.fraction
  let scale := tenths 1 (-exponent)
  let down := numerator * scale.1 / (denominator * scale.2)
  let nearest := roundDiv (numerator * scale.1) (denominator * scale.2)
  if nearest = down then [⟨down, exponent⟩, ⟨down + 1, exponent⟩]
  else [⟨down + 1, exponent⟩, ⟨down, exponent⟩]

/-- The shortest decimal of a positive number. -/
def shortest (b : Binary) : Scaled :=
  let (numerator, denominator) := b.fraction
  let leading := leadingExponent numerator denominator
  let candidates := (List.range 17).flatMap fun more => neighbours b (leading - Int.ofNat more)
  (candidates.find? (readsBackAs b)).getD ⟨numerator / denominator, 0⟩

/-- The digits without the zeros at their end. -/
def significantDigits (n : Nat) : List Char :=
  ((Nat.toDigits 10 n).reverse.dropWhile (· == '0')).reverse

/-- The digits with a point in them, their first digit standing at `10 ^ leading`. -/
def plain (digits : List Char) (leading : Int) : List Char :=
  if leading < 0 then '0' :: '.' :: (List.replicate (-leading - 1).toNat '0' ++ digits)
  else
    let whole := leading.toNat + 1
    let filled := digits ++ List.replicate (whole - digits.length) '0'
    let behind := filled.drop whole
    filled.take whole ++ '.' :: (if behind.isEmpty then ['0'] else behind)

/-- The digits with an exponent. -/
def scientific (digits : List Char) (leading : Int) : List Char :=
  let behind := digits.drop 1
  let mantissa := digits.take 1 ++ (if behind.isEmpty then [] else '.' :: behind)
  mantissa ++ 'e' :: (if leading < 0 then '-' else '+') :: Nat.toDigits 10 leading.natAbs

/-- How a double is written. -/
def written (b : Binary) : String :=
  let body :=
    if b.significand = 0 then ['0', '.', '0']
    else
      let s := shortest b
      let leading := s.exponent + (Nat.toDigits 10 s.digits).length - 1
      let digits := significantDigits s.digits
      if -5 ≤ leading ∧ leading ≤ 15 then plain digits leading else scientific digits leading
  String.ofList (if b.negative then '-' :: body else body)

end KeywordIndex.Decimal
