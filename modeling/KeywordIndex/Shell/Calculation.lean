import KeywordIndex.Shell.Command

namespace KeywordIndex.Shell

/-!
# Calculations of a script

Calculations are made with whole numbers of 64 bits that wrap around. Operators bind as in most
languages, and assignments change parameters.
-/

/-- The whole number of 64 bits with the same remainder. -/
def wrapped (n : Int) : Int := Int.bmod n 18446744073709551616

/-- The largest number of 64 bits. -/
def largestNumber : Int := 9223372036854775807

/-- A number in the bounds of 64 bits. -/
def clamped (n : Int) : Int := max (-largestNumber - 1) (min largestNumber n)

/-- The value of a digit, letters being digits above nine. -/
def digitValue (c : Char) : Nat :=
  if c.isDigit then c.toNat - '0'.toNat
  else if 'a' ≤ c ∧ c ≤ 'z' then c.toNat - 'a'.toNat + 10
  else if 'A' ≤ c ∧ c ≤ 'Z' then c.toNat - 'A'.toNat + 10
  else 99

/-- Whether the character is a digit in the base. -/
def isDigitIn (base : Nat) (c : Char) : Bool := digitValue c < base

/-- The number that is written with the digits. -/
def numberIn (base : Nat) (digits : List Char) : Nat :=
  digits.foldl (fun n d => base * n + digitValue d) 0

/-- Reads a number without a sign: its value, and what follows it. A leading zero stands before octal
digits, and a leading `0x` before hexadecimal ones. -/
def readNumber (cs : List Char) : Option (Nat × List Char) :=
  let digits (base : Nat) (cs : List Char) : Nat × List Char :=
    (numberIn base (cs.takeWhile (isDigitIn base)), cs.dropWhile (isDigitIn base))
  match cs with
  | '0' :: x :: d :: rest =>
    if (x == 'x' || x == 'X') && isDigitIn 16 d then some (digits 16 (d :: rest))
    else some (digits 8 cs)
  | '0' :: _ => some (digits 8 cs)
  | c :: _ => if c.isDigit then some (digits 10 cs) else none
  | [] => none

/-- White space around numbers. -/
def isCalculationSpace (c : Char) : Bool := c == ' ' || (9 ≤ c.toNat && c.toNat ≤ 13)

/-- Reads a number with a sign and space around it, and nothing else. -/
def signedNumber? (cs : List Char) : Option Int :=
  let cs := cs.dropWhile isCalculationSpace
  let (negative, digits) :=
    match cs with
    | '-' :: rest => (true, rest)
    | '+' :: rest => (false, rest)
    | _ => (false, cs)
  match readNumber digits with
  | some (n, rest) =>
    if rest.all isCalculationSpace then some (clamped (if negative then -(n : Int) else n)) else none
  | none => none

/-- An operator between two numbers. -/
inductive Operator where
  | multiply
  | divide
  | remainder
  | add
  | subtract
  | shiftLeft
  | shiftRight
  | less
  | lessEqual
  | greater
  | greaterEqual
  | equal
  | notEqual
  | bitAnd
  | bitXor
  | bitOr
  | and
  | or
  deriving DecidableEq, Repr

/-- How loosely the operator binds. -/
def Operator.level : Operator → Nat
  | multiply | divide | remainder => 1
  | add | subtract => 2
  | shiftLeft | shiftRight => 3
  | less | lessEqual | greater | greaterEqual => 4
  | equal | notEqual => 5
  | bitAnd => 6
  | bitXor => 7
  | bitOr => 8
  | and => 9
  | or => 10

/-- The loosest level. -/
def loosest : Nat := 10

/-- A token of a calculation. -/
inductive CalculationToken where
  | number (n : Int)
  | name (cs : List Char)
  | operator (o : Operator)
  /-- An assignment of what the operator gives, or of the number itself. -/
  | assign (o : Option Operator)
  | openParen
  | closeParen
  | not
  | complement
  | question
  | colon
  | other
  deriving DecidableEq, Repr

/-- The spellings of operators and marks, of which the first that fits is taken. -/
def calculationMarks : List (List Char × CalculationToken) :=
  [(['<', '<', '='], .assign (some .shiftLeft)), (['>', '>', '='], .assign (some .shiftRight)),
   (['<', '<'], .operator .shiftLeft), (['>', '>'], .operator .shiftRight),
   (['<', '='], .operator .lessEqual), (['>', '='], .operator .greaterEqual),
   (['=', '='], .operator .equal), (['!', '='], .operator .notEqual), (['&', '&'], .operator .and),
   (['|', '|'], .operator .or), (['+', '='], .assign (some .add)),
   (['-', '='], .assign (some .subtract)), (['*', '='], .assign (some .multiply)),
   (['/', '='], .assign (some .divide)), (['%', '='], .assign (some .remainder)),
   (['&', '='], .assign (some .bitAnd)), (['^', '='], .assign (some .bitXor)),
   (['|', '='], .assign (some .bitOr)), (['+'], .operator .add), (['-'], .operator .subtract),
   (['*'], .operator .multiply), (['/'], .operator .divide), (['%'], .operator .remainder),
   (['<'], .operator .less), (['>'], .operator .greater), (['&'], .operator .bitAnd),
   (['^'], .operator .bitXor), (['|'], .operator .bitOr), (['='], .assign none), (['('], .openParen),
   ([')'], .closeParen), (['!'], .not), (['~'], .complement), (['?'], .question), ([':'], .colon)]

/-- The tokens of a calculation. -/
def calculationTokens : Nat → List Char → List CalculationToken
  | 0, _ => []
  | _ + 1, [] => []
  | fuel + 1, c :: cs =>
    if isCalculationSpace c then calculationTokens fuel cs
    else if isNameStart c then
      .name (c :: cs.takeWhile isNameChar) :: calculationTokens fuel (cs.dropWhile isNameChar)
    else
      match readNumber (c :: cs) with
      | some (n, rest) => .number (min largestNumber n) :: calculationTokens fuel rest
      | none =>
        match calculationMarks.find? fun (mark, _) => mark.isPrefixOf (c :: cs) with
        | some (mark, token) => token :: calculationTokens fuel ((c :: cs).drop mark.length)
        | none => [.other]

/-- Why a calculation has no result. -/
inductive CalculationFault where
  | noPrimary
  | noCloseParen
  | noColon
  | noEnd
  | divisionByZero
  /-- A parameter whose value is no number. -/
  | notANumber (value : List Char)
  deriving DecidableEq, Repr

/-- The complaint about a calculation. -/
def CalculationFault.message (expression : List Char) : CalculationFault → List Char
  | notANumber value => "Illegal number: ".toList ++ value
  | noPrimary => about "expecting primary"
  | noCloseParen => about "expecting ')'"
  | noColon => about "expecting ':'"
  | noEnd => about "expecting EOF"
  | divisionByZero => about "division by zero"
where
  about (reason : String) : List Char :=
    s!"arithmetic expression: {reason}: \"".toList ++ expression ++ ['"']

/-- A calculation on its way. -/
structure Calculation where
  tokens : List CalculationToken
  /-- The value of a parameter before the calculation. -/
  lookup : List Char → Option (List Char)
  /-- The parameters that were assigned to, the last first. -/
  assigned : List (List Char × Int) := []

/-- Makes a calculation. -/
abbrev Calculator := StateT Calculation (Except CalculationFault)

namespace Calculator

/-- The value of a parameter. -/
def valueOf (name : List Char) : Calculator Int := do
  let c ← get
  match c.assigned.lookup name with
  | some n => return n
  | none =>
    match c.lookup name with
    | none => return 0
    | some cs =>
      if cs.all isCalculationSpace then return 0
      else
        match signedNumber? cs with
        | some n => return n
        | none => throw (.notANumber cs)

/-- One or zero. -/
def truth (b : Bool) : Int := if b then 1 else 0

/-- The remainder of 64 bits that a number has without its sign. -/
def bits (n : Int) : Nat := (n % 18446744073709551616).toNat

/-- Combines two numbers. -/
def combine (o : Operator) (a b : Int) : Calculator Int :=
  match o with
  | .multiply => return wrapped (a * b)
  | .divide => if b = 0 then throw .divisionByZero else return wrapped (a.tdiv b)
  | .remainder => if b = 0 then throw .divisionByZero else return a.tmod b
  | .add => return wrapped (a + b)
  | .subtract => return wrapped (a - b)
  | .shiftLeft => return wrapped (a * Nat.pow 2 (bits b % 64))
  | .shiftRight => return a.fdiv (Nat.pow 2 (bits b % 64))
  | .less => return truth (a < b)
  | .lessEqual => return truth (a ≤ b)
  | .greater => return truth (b < a)
  | .greaterEqual => return truth (b ≤ a)
  | .equal => return truth (a = b)
  | .notEqual => return truth (a ≠ b)
  | .bitAnd => return wrapped (Nat.land (bits a) (bits b))
  | .bitXor => return wrapped (Nat.xor (bits a) (bits b))
  | .bitOr => return wrapped (Nat.lor (bits a) (bits b))
  | .and => return truth (a ≠ 0 ∧ b ≠ 0)
  | .or => return truth (a ≠ 0 ∨ b ≠ 0)

/-- The next token, not yet read. -/
def peek : Calculator (Option CalculationToken) := do return (← get).tokens.head?

/-- Passes over a token. -/
def skip : Calculator Unit := modify fun c => { c with tokens := c.tokens.drop 1 }

mutual

/-- Reads a number, a parameter or something in parentheses, with signs before it. Nothing is looked up
or assigned to if `idle`. -/
def primary (idle : Bool) : Nat → Calculator Int
  | 0 => throw .noPrimary
  | fuel + 1 => do
    match ← peek with
    | some .openParen => do
      skip
      let result ← assignment idle fuel
      if (← peek) ≠ some .closeParen then throw .noCloseParen
      skip
      return result
    | some (.number n) => skip; return n
    | some (.name name) => skip; if idle then return 0 else valueOf name
    | some (.operator .add) => skip; primary idle fuel
    | some (.operator .subtract) => skip; return wrapped (-(← primary idle fuel))
    | some .not => skip; return truth ((← primary idle fuel) = 0)
    | some .complement => skip; return -(← primary idle fuel) - 1
    | _ => throw .noPrimary

/-- Reads what operators up to the level combine. -/
def combined (idle : Bool) (level : Nat) : Nat → Calculator Int
  | 0 => throw .noPrimary
  | fuel + 1 => do
    if level = 0 then primary idle fuel
    else do
      let first ← combined idle (level - 1) fuel
      more idle level first fuel

/-- Reads further operators of the level. -/
def more (idle : Bool) (level : Nat) (first : Int) : Nat → Calculator Int
  | 0 => throw .noPrimary
  | fuel + 1 => do
    match ← peek with
    | some (.operator o) =>
      if o.level = level then do
        skip
        let decided := (o = .and ∧ first = 0) ∨ (o = .or ∧ first ≠ 0)
        let second ← combined (idle || decided) (level - 1) fuel
        let result ← if idle then pure second else combine o first second
        more idle level result fuel
      else return first
    | _ => return first

/-- Reads a choice between two numbers. -/
def conditional (idle : Bool) : Nat → Calculator Int
  | 0 => throw .noPrimary
  | fuel + 1 => do
    let condition ← combined idle loosest fuel
    if (← peek) = some .question then do
      skip
      let first ← assignment (idle || condition = 0) fuel
      if (← peek) ≠ some .colon then throw .noColon
      skip
      let second ← conditional (idle || condition ≠ 0) fuel
      return if condition ≠ 0 then first else second
    else return condition

/-- Reads an assignment, or what may be assigned. -/
def assignment (idle : Bool) : Nat → Calculator Int
  | 0 => throw .noPrimary
  | fuel + 1 => do
    match (← get).tokens with
    | .name name :: .assign o :: _ => do
      skip
      skip
      let value ← assignment idle fuel
      if idle then return value
      else do
        let value ←
          match o with
          | some o => do combine o (← valueOf name) value
          | none => pure value
        modify fun c => { c with assigned := (name, value) :: c.assigned }
        return value
    | _ => conditional idle fuel

end

end Calculator

/-- The result of a calculation, and the parameters that it assigned to, the last first. -/
def calculate (expression : List Char) (lookup : List Char → Option (List Char)) :
    Except CalculationFault (Int × List (List Char × Int)) := do
  let tokens := calculationTokens expression.length expression
  let fuel := 16 * (tokens.length + 1)
  let (result, rest) ← (Calculator.assignment false fuel).run { tokens, lookup }
  if rest.tokens.isEmpty then return (result, rest.assigned) else throw .noEnd

end KeywordIndex.Shell
