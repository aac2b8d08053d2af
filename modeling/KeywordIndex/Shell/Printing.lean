import KeywordIndex.Decimal.Shortest
import KeywordIndex.Shell.Calculation

namespace KeywordIndex.Shell

open Decimal

/-!
# Commands that write

`echo` writes its words, and `printf` writes a format as often as there are words for it. Conversions in
a format take a word each and bring it into the shape that they describe.
-/

/-- The character that a letter after a backslash stands for. -/
def controlCharacter? (c : Char) : Option Char :=
  match c with
  | '\\' => some '\\'
  | 'a' => some '\x07'
  | 'b' => some '\x08'
  | 'e' => some '\x1b'
  | 'f' => some '\x0c'
  | 'n' => some '\n'
  | 'r' => some '\r'
  | 't' => some '\t'
  | 'v' => some '\x0b'
  | _ => none

/-- An octal digit. -/
def isOctal (c : Char) : Bool := '0' ≤ c && c ≤ '7'

/-- The octet that some octal digits stand for. -/
def octet (digits : List Char) : Char := Char.ofNat (numberIn 8 digits % 256)

/-- Reads what follows a backslash in a format, and says how many characters that is. Up to three octal
digits stand for an octet, and a backslash before any other character for itself. -/
def formatEscape (cs : List Char) : Char × Nat :=
  let digits := (cs.take 3).takeWhile isOctal
  if !digits.isEmpty then (octet digits, digits.length)
  else
    match cs.head?.bind controlCharacter? with
    | some c => (c, 1)
    | none => ('\\', 0)

/-- Reads what follows a backslash in a word that is written. A zero may stand before three octal
digits. -/
def wordEscape (cs : List Char) : Char × Nat :=
  match cs with
  | '0' :: rest =>
    let digits := (rest.take 3).takeWhile isOctal
    (octet digits, digits.length + 1)
  | _ => formatEscape cs

/-- A word with its escapes replaced, and whether the output goes on behind it: `\c` ends it. -/
def unescape : List Char → List Char × Bool
  | [] => ([], true)
  | c :: cs =>
    if c = '\\' then
      if cs.head? = some 'c' then ([], false)
      else
        let (d, used) := wordEscape cs
        let (rest, more) := unescape (cs.drop used)
        (d :: rest, more)
    else
      let (rest, more) := unescape cs
      (c :: rest, more)
termination_by cs => cs.length
decreasing_by all_goals grind

/-- What `echo` writes. -/
def echo (arguments : List (List Char)) : List Char :=
  let (words, ending) :=
    match arguments with
    | ['-', 'n'] :: rest => (rest, [])
    | _ => (arguments, ['\n'])
  let (text, more) := unescape ([' '].intercalate words)
  if more then text ++ ending else text

/-- How a conversion shapes what it writes. -/
structure Shape where
  left : Bool := false
  plus : Bool := false
  space : Bool := false
  alternate : Bool := false
  zeros : Bool := false
  width : Nat := 0
  precision : Option Nat := none

namespace Shape

/-- The flags as they are written. -/
def ofFlags (flags : List Char) : Shape where
  left := flags.contains '-'
  plus := flags.contains '+'
  space := flags.contains ' '
  alternate := flags.contains '#'
  zeros := flags.contains '0'

/-- Fills a text up to the width. -/
def pad (shape : Shape) (cs : List Char) : List Char :=
  let missing := List.replicate (shape.width - cs.length) ' '
  if shape.left then cs ++ missing else missing ++ cs

/-- Fills a number up to the width, with zeros between its sign and its digits if the shape says so. -/
def padNumber (shape : Shape) (zeros : Bool) (sign digits : List Char) : List Char :=
  if zeros && !shape.left then
    sign ++ List.replicate (shape.width - sign.length - digits.length) '0' ++ digits
  else shape.pad (sign ++ digits)

/-- The sign of a number. -/
def sign (shape : Shape) (negative : Bool) : List Char :=
  if negative then ['-'] else if shape.plus then ['+'] else if shape.space then [' '] else []

/-- At least as many digits as the precision says. A precision of zero leaves nothing of zero. -/
def atLeast (shape : Shape) (n : Nat) (digits : List Char) : List Char :=
  match shape.precision with
  | some 0 => if n = 0 then [] else digits
  | some places => List.replicate (places - digits.length) '0' ++ digits
  | none => digits

/-- A number with a sign. -/
def signed (shape : Shape) (n : Int) : List Char :=
  let digits := shape.atLeast n.natAbs (Nat.toDigits 10 n.natAbs)
  shape.padNumber (shape.zeros && shape.precision.isNone) (shape.sign (n < 0)) digits

/-- A number without a sign in the base of the conversion. -/
def unsigned (shape : Shape) (conversion : Char) (n : Nat) : List Char :=
  let base := if conversion = 'o' then 8 else if conversion = 'u' then 10 else 16
  let written := shape.atLeast n (Nat.toDigits base n)
  let cased := if conversion = 'X' then written.map Char.toUpper else written
  let digits :=
    if conversion = 'o' && shape.alternate && cased.head? ≠ some '0' then '0' :: cased else cased
  let lead :=
    if base = 16 && shape.alternate && n ≠ 0 then ['0', conversion] else []
  shape.padNumber (shape.zeros && shape.precision.isNone) lead digits

end Shape

/-- The digits of a positive fraction behind its first digit, rounded to `places` digits behind it, and
the exponent of the first digit. -/
def scientificDigits (b : Binary) (places : Nat) : List Char × Int :=
  let (numerator, denominator) := b.fraction
  let leading := leadingExponent numerator denominator
  let digitsFor (leading : Int) : List Char :=
    let scale := tenths 1 (Int.ofNat places - leading)
    Nat.toDigits 10 (roundDiv (numerator * scale.1) (denominator * scale.2))
  let digits := digitsFor leading
  if digits.length ≤ places + 1 then (digits, leading) else (digitsFor (leading + 1), leading + 1)

/-- An exponent with its sign and two digits at least. -/
def exponentText (letter : Char) (n : Int) : List Char :=
  letter :: (if n < 0 then '-' else '+') :: padded 2 n.natAbs

/-- Digits with a point behind the first. -/
def pointed (alternate : Bool) (digits : List Char) : List Char :=
  digits.take 1 ++ (if digits.length > 1 || alternate then '.' :: digits.drop 1 else [])

/-- The magnitude of a number with a point, as the conversion asks for. -/
def floatDigits (shape : Shape) (conversion : Char) (b : Binary) : List Char :=
  let b := { b with negative := false }
  let places := shape.precision.getD 6
  let lower := conversion.toLower
  let letter := if conversion.isUpper then 'E' else 'e'
  let fixedText (places : Nat) : List Char :=
    let cs := (fixed places b).toList
    if places = 0 && !shape.alternate then cs.filter (· ≠ '.') else cs
  let exact (places : Nat) : List Char × Int :=
    if b.significand = 0 then (List.replicate (places + 1) '0', 0) else scientificDigits b places
  if lower = 'f' then fixedText places
  else if lower = 'e' then
    let (digits, leading) := exact places
    pointed shape.alternate digits ++ exponentText letter leading
  else
    let significant := max 1 places
    let (digits, leading) := exact (significant - 1)
    let trim (cs : List Char) : List Char :=
      if shape.alternate || !cs.contains '.' then cs
      else ((cs.reverse.dropWhile (· == '0')).dropWhile (· == '.')).reverse
    if leading < -4 ∨ (significant : Int) ≤ leading then
      trim (pointed shape.alternate digits) ++ exponentText letter leading
    else trim (fixedText ((significant : Int) - 1 - leading).toNat)

/-- A number with a point in the shape. -/
def Shape.float (shape : Shape) (conversion : Char) (x : Float) : List Char :=
  if x.isNaN then shape.pad "nan".toList
  else if x.isInf then shape.pad (shape.sign (x < 0) ++ "inf".toList)
  else
    let b := Binary.ofFloat x
    shape.padNumber shape.zeros (shape.sign b.negative) (floatDigits shape conversion b)

/-- Reads a number with a point from the start of a text: its value, and what follows it. -/
def readFloat (cs : List Char) : Float × List Char :=
  let trimmed := cs.dropWhile isCalculationSpace
  let (negative, unsigned) :=
    match trimmed with
    | '-' :: rest => (true, rest)
    | '+' :: rest => (false, rest)
    | _ => (false, trimmed)
  let whole := unsigned.takeWhile Char.isDigit
  let behind := unsigned.drop whole.length
  let (fraction, behind) :=
    match behind with
    | '.' :: rest => (rest.takeWhile Char.isDigit, rest.dropWhile Char.isDigit)
    | _ => ([], behind)
  if whole.isEmpty && fraction.isEmpty then (0, cs)
  else
    let (exponent, behind) : Int × List Char :=
      match behind with
      | e :: rest =>
        if e == 'e' || e == 'E' then
          let (minus, digits) :=
            match rest with
            | '-' :: ds => (true, ds)
            | '+' :: ds => (false, ds)
            | _ => (false, rest)
          let number := digits.takeWhile Char.isDigit
          if number.isEmpty then (0, behind)
          else
            let n : Int := numberIn 10 (number.take 6)
            (if minus then -n else n, digits.drop number.length)
        else (0, behind)
      | [] => (0, [])
    let scale := exponent - fraction.length
    let magnitude := Float.ofScientific (numberIn 10 (whole ++ fraction)) (scale < 0) scale.natAbs
    (if negative then -magnitude else magnitude, behind)

/-- A format that is being written. -/
structure Printing where
  /-- The words that are left. -/
  words : List (List Char)
  /-- Whether a conversion has asked for a word. -/
  asked : Bool := false
  text : List Char := []
  warnings : List (List Char) := []
  /-- What ends the output: nothing for the end that a word asks for, or a complaint. -/
  halted : Option (List Char) := none

namespace Printing

/-- Adds to the output. -/
def put (p : Printing) (cs : List Char) : Printing := { p with text := p.text ++ cs }

/-- Takes the next word, if there is one. -/
def next (p : Printing) : Printing × Option (List Char) :=
  ({ p with words := p.words.drop 1, asked := true }, p.words.head?)

/-- Complains if not all of a word was read as a number. -/
def check (p : Printing) (word rest : List Char) (outOfRange : Bool) : Printing :=
  let complaint :=
    if !rest.isEmpty then
      some (if rest = word then "expected numeric value" else "not completely converted")
    else if outOfRange then some "Numerical result out of range"
    else none
  match complaint with
  | some reason => { p with warnings := p.warnings ++ [word ++ ": ".toList ++ reason.toList] }
  | none => p

/-- Takes a word as a whole number. After a quote stands a character for its number. -/
def nextInteger (p : Printing) (isSigned : Bool) : Printing × Int :=
  let (p, word) := p.next
  match word with
  | none => (p, 0)
  | some word =>
    match word with
    | '"' :: rest | '\'' :: rest => (p, ((rest.head?.map Char.toNat).getD 0 : Nat))
    | _ =>
      let trimmed := word.dropWhile isCalculationSpace
      let (negative, unsigned) :=
        match trimmed with
        | '-' :: rest => (true, rest)
        | '+' :: rest => (false, rest)
        | _ => (false, trimmed)
      match readNumber unsigned with
      | none => (p.check word word false, 0)
      | some (n, rest) =>
        let value : Int := if negative then -(n : Int) else n
        let most : Int := 18446744073709551615
        let bound := if isSigned then clamped value else max (-most) (min most value)
        (p.check word rest (bound ≠ value), bound)

/-- Takes a word as a number with a point. -/
def nextFloat (p : Printing) : Printing × Float :=
  let (p, word) := p.next
  match word with
  | none => (p, 0)
  | some word =>
    match word with
    | '"' :: rest | '\'' :: rest => (p, Float.ofNat ((rest.head?.map Char.toNat).getD 0))
    | _ =>
      let (x, rest) := readFloat word
      (p.check word rest false, x)

/-- Writes what a conversion makes of the next word. -/
def convert (p : Printing) (shape : Shape) (directive : List Char) (conversion : Char) : Printing :=
  let shorten (cs : List Char) : List Char :=
    match shape.precision with
    | some n => cs.take n
    | none => cs
  match conversion with
  | 's' =>
    let (p, word) := p.next
    p.put (shape.pad (shorten (word.getD [])))
  | 'b' =>
    let (p, word) := p.next
    let (text, more) := unescape (word.getD [])
    let p := p.put (shape.pad (shorten text))
    if more then p else { p with halted := some [] }
  | 'c' =>
    let (p, word) := p.next
    p.put (shape.pad [(word.getD []).head?.getD '\x00'])
  | 'd' | 'i' =>
    let (p, n) := p.nextInteger true
    p.put (shape.signed n)
  | 'o' | 'u' | 'x' | 'X' =>
    let (p, n) := p.nextInteger false
    p.put (shape.unsigned conversion (n % 18446744073709551616).toNat)
  | 'e' | 'E' | 'f' | 'F' | 'g' | 'G' =>
    let (p, x) := p.nextFloat
    p.put (shape.float conversion x)
  | _ => { p with halted := some (directive ++ ": invalid directive".toList) }

/-- Reads a number in a format, or takes a word for it if a star stands there. -/
def bound (p : Printing) (cs : List Char) : Printing × Option Int × List Char :=
  match cs with
  | '*' :: rest =>
    let (p, n) := p.nextInteger true
    (p, some n, rest)
  | _ =>
    let digits := cs.takeWhile Char.isDigit
    (p, if digits.isEmpty then none else some (numberIn 10 digits), cs.drop digits.length)

/-- Writes a format once. -/
def once (p : Printing) : Nat → List Char → Printing
  | 0, _ => p
  | _ + 1, [] => p
  | fuel + 1, c :: cs =>
    if p.halted.isSome then p
    else if c = '\\' then
      let (d, used) := formatEscape cs
      once (p.put [d]) fuel (cs.drop used)
    else if c ≠ '%' then once (p.put [c]) fuel cs
    else
      match cs with
      | '%' :: rest => once (p.put ['%']) fuel rest
      | _ =>
        let flags := cs.takeWhile ("#-+ 0".toList.contains ·)
        let shape := Shape.ofFlags flags
        let (p, width, rest) := p.bound (cs.drop flags.length)
        let width := width.getD 0
        let shape := { shape with left := shape.left || width < 0, width := width.natAbs }
        let (p, precision, rest) :=
          match rest with
          | '.' :: rest =>
            let (p, n, rest) := p.bound rest
            (p, some (n.getD 0), rest)
          | _ => (p, none, rest)
        let shape :=
          { shape with precision := precision.bind fun n => if n < 0 then none else some n.toNat }
        match rest with
        | [] => { p with halted := some "missing format character".toList }
        | conversion :: rest =>
          let directive := '%' :: cs.take (cs.length - rest.length)
          once (p.convert shape directive conversion) fuel rest

/-- Writes a format until no words are left. -/
def all (format : List Char) (p : Printing) : Nat → Printing
  | 0 => p
  | fuel + 1 =>
    let before := p.words.length
    let p := p.once (format.length + 1) format
    if p.halted.isNone && !p.words.isEmpty && p.words.length < before then all format p fuel else p

end Printing

/-- What `printf` writes and complains about. Each round after the first takes a word at least. -/
def printf (format : List Char) (words : List (List Char)) : Printing :=
  Printing.all format { words } (words.length + 1)

end KeywordIndex.Shell
