import KeywordIndex.Decimal.Shortest
import KeywordIndex.Json.Fault

namespace KeywordIndex.Json

/-!
# Numbers

A number without a fraction and an exponent is an integer if it fits into 64 bits. All others are
doubles, worked out from the digits that fit into 64 bits and a power of ten.
-/

/-- How the text of a number ends. -/
inductive NumberEnd where
  | complete
  /-- The text breaks off where a digit has to follow. -/
  | cut
  | malformed
  deriving DecidableEq, Repr

/-- A number as it is written. -/
structure Number where
  negative : Bool
  whole : List Char := []
  fraction : Option (List Char) := none
  /-- The sign and the digits of the exponent; `true` is a minus. -/
  exponent : Option (Bool × List Char) := none
  ending : NumberEnd := .complete
  deriving DecidableEq, Repr

/-- A digit. -/
def isDigit (c : Char) : Bool := '0' ≤ c && c ≤ '9'

/-- How a number ends whose text `cs` goes on with something else than a digit. -/
def stopAt (cs : List Char) : NumberEnd := if cs.isEmpty then .cut else .malformed

/-- Reads the exponent of a number after its letter, and says how many characters it has. -/
def Number.readExponent (n : Number) (cs : List Char) : Number × Nat :=
  let (minus, signed, unsigned) :=
    match cs with
    | '+' :: rest => (false, 1, rest)
    | '-' :: rest => (true, 1, rest)
    | _ => (false, 0, cs)
  let digits := unsigned.takeWhile isDigit
  if digits.isEmpty then ({ n with ending := stopAt unsigned }, 0)
  else ({ n with exponent := some (minus, digits) }, signed + digits.length)

/-- Reads what follows the whole part of a number. -/
def Number.readTail (n : Number) (cs : List Char) : Number × Nat :=
  match cs with
  | '.' :: rest =>
    let digits := rest.takeWhile isDigit
    let behind := rest.drop digits.length
    let n := { n with fraction := some digits }
    if digits.isEmpty then ({ n with ending := stopAt behind }, 0)
    else
      match behind with
      | c :: rest =>
        if c = 'e' ∨ c = 'E' then
          let (n, used) := n.readExponent rest
          (n, digits.length + 2 + used)
        else (n, digits.length + 1)
      | [] => (n, digits.length + 1)
  | c :: rest =>
    if c = 'e' ∨ c = 'E' then
      let (n, used) := n.readExponent rest
      (n, 1 + used)
    else (n, 0)
  | [] => (n, 0)

/-- Reads a number after its sign, and says how many characters it has. -/
def readNumber (negative : Bool) (cs : List Char) : Number × Nat :=
  let digits := cs.takeWhile isDigit
  let rest := cs.drop digits.length
  match digits with
  | [] => ({ negative := negative, ending := stopAt rest }, 0)
  | '0' :: _ :: _ => ({ negative := negative, whole := digits, ending := .malformed }, 0)
  | _ =>
    let (n, used) := Number.readTail { negative := negative, whole := digits } rest
    (n, digits.length + used)

/-- The value of a number. -/
inductive NumberValue where
  | natural (n : Nat)
  /-- A number below zero. -/
  | negative (n : Int)
  | double (x : Float)

/-- The digits put after `value` as long as the result fits into 64 bits, with their number. -/
def absorb (value : Nat) : List Char → Nat × Nat
  | [] => (value, 0)
  | c :: cs =>
    let next := value * 10 + (c.toNat - '0'.toNat)
    if next < 0x10000000000000000 then
      let (result, count) := absorb next cs
      (result, count + 1)
    else (value, 0)

/-- A power of ten as a double. -/
def powerOfTen (n : Nat) : Float := Float.ofScientific 1 false n

/-- The double `significand * 10 ^ exponent`, computed with at most one rounded product or quotient for
each 308 places. -/
def scaledFloat (significand : Nat) (exponent : Int) : Except Fault Float :=
  let f := Float.ofNat significand
  if significand = 0 then .ok f
  else if 308 < exponent then .error .numberTooLarge
  else if 0 ≤ exponent then
    let scaled := f * powerOfTen exponent.toNat
    if scaled.isInf then .error .numberTooLarge else .ok scaled
  else if -308 ≤ exponent then .ok (f / powerOfTen (-exponent).toNat)
  else if -616 ≤ exponent then .ok (f / powerOfTen 308 / powerOfTen (-exponent - 308).toNat)
  else .ok (Float.ofNat 0)

namespace Number

/-- The magnitude of a number that is written with a fraction or an exponent, or is too long. -/
def magnitude (n : Number) : Except Fault Float :=
  let (whole, taken) := absorb 0 n.whole
  let (significand, behind) := absorb whole (n.fraction.getD [])
  let start : Int := ((n.whole.length - taken : Nat) : Int) - behind
  match n.exponent with
  | none => scaledFloat significand start
  | some (minus, digits) =>
    let (exponent, _) := absorb 0 digits
    if exponent < 0x80000000 then
      scaledFloat significand (if minus then start - exponent else start + exponent)
    else if minus || significand == 0 then .ok (Float.ofNat 0)
    else .error .numberTooLarge

/-- The value of a number that is wanted. -/
def value (n : Number) : Except Fault NumberValue :=
  match n.ending with
  | .cut => .error .cutValue
  | .malformed => .error .badNumber
  | .complete =>
    let (whole, taken) := absorb 0 n.whole
    if n.fraction.isNone && n.exponent.isNone && taken == n.whole.length then
      if !n.negative then .ok (.natural whole)
      else if 0 < whole && whole ≤ 0x8000000000000000 then .ok (.negative (-whole))
      else .ok (.double (-Float.ofNat whole))
    else n.magnitude.map fun x => .double (if n.negative then -x else x)

/-- Passes over a number that is not wanted. -/
def skim (n : Number) : Except Fault Unit :=
  match n.ending with
  | .complete => .ok ()
  | _ => .error .badNumber

end Number

/-- How a value is described that is not the one wanted. -/
def NumberValue.description : NumberValue → String
  | natural n => s!"integer `{n}`"
  | negative n => s!"integer `{n}`"
  | double x => s!"floating point `{Decimal.written (Decimal.Binary.ofFloat x)}`"

end KeywordIndex.Json
