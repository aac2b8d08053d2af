import KeywordIndex.Shell.Printing
import KeywordIndex.Shell.RegularExpression
import KeywordIndex.Shell.Utility.Lines

namespace KeywordIndex.Shell.Utility

open KeywordIndex.Shell.Job Text

/-!
# Programs for words

Programs that make something of their arguments alone: parts of paths, sequences of numbers and the
values of expressions.
-/

/-! ## Paths -/

/-- The last part of a path without slashes at its end. -/
def baseName (path : List Char) : List Char :=
  let trimmed := (path.reverse.dropWhile (· == '/')).reverse
  if trimmed.isEmpty then path.take 1 else shortName trimmed

/-- A path without its last part. -/
def directoryName (path : List Char) : List Char :=
  let trimmed := path.reverse.dropWhile (· == '/')
  let outer := (trimmed.dropWhile (· ≠ '/')).dropWhile (· == '/')
  if outer.isEmpty then (if path.head? = some '/' then ['/'] else ['.']) else outer.reverse

/-- A name without the given end, unless nothing would be left. -/
def withoutSuffix (suffix name : List Char) : List Char :=
  if suffix.reverse.isPrefixOf name.reverse && suffix.length < name.length then
    name.take (name.length - suffix.length)
  else name

/-- Writes the last parts of paths. -/
def basename : Program := do
  let (given, operands) ← switches 1
    [⟨'a', "multiple", false⟩, ⟨'s', "suffix", true⟩, ⟨'z', "zero", false⟩]
  let ending := if has given 'z' then ['\x00'] else ['\n']
  match operands with
  | [] => misuse 1 "missing operand".toList
  | first :: rest =>
    if has given 'a' || has given 's' then
      operands.forM fun path => out (withoutSuffix ((last? given 's').getD []) (baseName path) ++ ending)
    else
      match rest with
      | _ :: extra :: _ => misuse 1 ("extra operand ".toList ++ quoted extra)
      | _ => out (withoutSuffix (rest.head?.getD []) (baseName first) ++ ending)

/-- Writes paths without their last parts. -/
def dirname : Program := do
  let (given, operands) ← switches 1 [⟨'z', "zero", false⟩]
  if operands.isEmpty then misuse 1 "missing operand".toList
  operands.forM fun path => out (directoryName path ++ if has given 'z' then ['\x00'] else ['\n'])

/-! ## Sequences -/

/-- A number as a whole text. -/
def wholeNumeral? (cs : List Char) : Option Numeral :=
  let unsigned :=
    match cs with
    | '-' :: rest | '+' :: rest => rest
    | _ => cs
  let whole := unsigned.takeWhile Char.isDigit
  let fraction? :=
    match unsigned.drop whole.length with
    | [] => some []
    | '.' :: rest => if rest.all Char.isDigit then some rest else none
    | _ => none
  match fraction? with
  | some fraction =>
    if whole.isEmpty && fraction.isEmpty then none
    else
      let n : Int := numberIn 10 (whole ++ fraction)
      some ⟨if cs.head? = some '-' then -n else n, fraction.length⟩
  | none => none

/-- A number with some places behind the point, filled up with zeros to a width. -/
def numeralText (unscaled : Int) (places width : Nat) : List Char :=
  let digits := Nat.toDigits 10 unscaled.natAbs
  let digits := List.replicate (places + 1 - digits.length) '0' ++ digits
  let sign := if unscaled < 0 then ['-'] else []
  let body :=
    if places = 0 then digits
    else digits.take (digits.length - places) ++ '.' :: digits.drop (digits.length - places)
  sign ++ List.replicate (width - sign.length - body.length) '0' ++ body

/-- Separates options from the numbers of a sequence, which may have a minus sign. -/
def splitSequenceArguments : List (List Char) → List (List Char) × List (List Char)
  | [] => ([], [])
  | word :: rest =>
    match word with
    | '-' :: c :: _ =>
      if c.isDigit || c = '.' then ([], word :: rest)
      else if word = ['-', '-'] then ([], rest)
      else if word = ['-', 's'] || word = ['-', 'f'] then
        let (options, numbers) := splitSequenceArguments (rest.drop 1)
        (word :: rest.take 1 ++ options, numbers)
      else
        let (options, numbers) := splitSequenceArguments rest
        (word :: options, numbers)
    | _ => ([], word :: rest)
termination_by words => words.length

/-- No sequence is longer. -/
def sequenceLimit : Nat := 1000000

/-- Writes a sequence of numbers. -/
def seq : Program := do
  let (options, numbers) := splitSequenceArguments (← get).arguments
  modify fun j => { j with arguments := options }
  let (given, _) ← switches 1
    [⟨'s', "separator", true⟩, ⟨'w', "equal-width", false⟩, ⟨'f', "format", true⟩]
  let values ← numbers.mapM fun word => do
    match wholeNumeral? word with
    | some n => return n
    | none => misuse 1 ("invalid floating point argument: ".toList ++ quoted word)
  let (first, step, last) ←
    match values with
    | [] => misuse 1 "missing operand".toList
    | [last] => pure ((⟨1, 0⟩ : Numeral), (⟨1, 0⟩ : Numeral), last)
    | [first, last] => pure (first, ⟨1, 0⟩, last)
    | [first, step, last] => pure (first, step, last)
    | _ => misuse 1 ("extra operand ".toList ++ quoted ((numbers[3]?).getD []))
  if step.unscaled = 0 then
    misuse 1 ("invalid Zero increment value: ".toList ++ quoted ((numbers[1]?).getD []))
  let places := max first.places step.places
  let most := max places last.places
  let scaled (n : Numeral) : Int := n.unscaled * Nat.pow 10 (most - n.places)
  let (a, d, z) := (scaled first, scaled step, scaled last)
  let count : Nat :=
    if (0 < d && z < a) || (d < 0 && a < z) then 0 else ((z - a) / d).toNat + 1
  let shrink : Int := Nat.pow 10 (most - places)
  let items := (List.range (min count sequenceLimit)).map fun (k : Nat) => (a + d * k) / shrink
  let width :=
    if has given 'w' then
      (z / shrink :: items).foldl (fun n item => max n (numeralText item places 0).length) 0
    else 0
  let texts := items.map fun item =>
    match last? given 'f' with
    | some format => (Shell.printf format [numeralText item places 0]).text
    | none => numeralText item places width
  if !texts.isEmpty then out (((last? given 's').getD ['\n']).intercalate texts ++ ['\n'])

/-! ## Expressions -/

/-- Words that an expression is read from. -/
structure ExpressionWords where
  rest : List (List Char)
  /-- The word that was read last. -/
  last : List Char := []

/-- Reads from the words of an expression. -/
abbrev ExpressionStep := StateT ExpressionWords (Except (List Char))

/-- A whole number as a word. -/
def integer? (word : List Char) : Option Int :=
  match word with
  | '-' :: digits => (decimal? digits).map fun n => -(n : Int)
  | digits => (decimal? digits).map fun n => (n : Int)

/-- Whether a word is empty or zero. -/
def isNull (word : List Char) : Bool :=
  let digits := if word.head? = some '-' then word.drop 1 else word
  word.isEmpty || (!digits.isEmpty && digits.all (· = '0'))

/-- An integer as a word. -/
def integerText (n : Int) : List Char := (toString n).toList

/-- What an expression finds at the start of a text: the text of its first group, or how much it
matches. -/
def matchStart (text pattern : List Char) : Except (List Char) (List Char) := do
  match RegularExpression.read { extended := false } pattern with
  | .error message => .error message.toList
  | .ok e =>
    let grouped := pattern.length > 1 && (List.zip pattern (pattern.drop 1)).contains ('\\', '(')
    match (RegularExpression.longest? e (.ofText none text)) with
    | some c =>
      .ok (if grouped then (c.groups.lookup 1).getD [] else integerText (text.length - c.remaining : Nat))
    | none => .ok (if grouped then [] else ['0'])

/-- Carries out an operator of an expression. -/
def applyOperator (operator a b : List Char) : Except (List Char) (List Char) :=
  let compared (holds : Ordering → Bool) : Except (List Char) (List Char) :=
    let order :=
      match integer? a, integer? b with
      | some m, some n => Ord.compare m n
      | _, _ => compareText a b
    .ok (if holds order then ['1'] else ['0'])
  let numbers (f : Int → Int → Except (List Char) Int) : Except (List Char) (List Char) :=
    match integer? a, integer? b with
    | some m, some n => (f m n).map integerText
    | _, _ => .error "non-integer argument".toList
  let divided (f : Int → Int → Int) : Except (List Char) (List Char) :=
    numbers fun m n => if n = 0 then .error "division by zero".toList else .ok (f m n)
  match String.ofList operator with
  | "|" => .ok (if !isNull a then a else if !isNull b then b else ['0'])
  | "&" => .ok (if isNull a || isNull b then ['0'] else a)
  | "<" => compared (· = .lt)
  | "<=" => compared (· ≠ .gt)
  | "=" | "==" => compared (· = .eq)
  | "!=" => compared (· ≠ .eq)
  | ">=" => compared (· ≠ .lt)
  | ">" => compared (· = .gt)
  | "+" => numbers fun m n => .ok (m + n)
  | "-" => numbers fun m n => .ok (m - n)
  | "*" => numbers fun m n => .ok (m * n)
  | "/" => divided Int.tdiv
  | "%" => divided Int.tmod
  | _ => matchStart a b

/-- The operators from those that bind least to those that bind most. -/
def operatorLevels : List (List String) :=
  [["|"], ["&"], ["<", "<=", "=", "==", "!=", ">=", ">"], ["+", "-"], ["*", "/", "%"], [":"]]

/-- The next word of an expression. -/
def nextWord : ExpressionStep (List Char) := do
  let s ← get
  match s.rest with
  | [] => throw ("syntax error: missing argument after ".toList ++ quoted s.last)
  | word :: rest =>
    set (⟨rest, word⟩ : ExpressionWords)
    return word

mutual

/-- Reads operands with the operators of some levels between them. -/
def readLevels : Nat → List (List String) → ExpressionStep (List Char)
  | 0, _ => return []
  | fuel + 1, [] => readOperandWord fuel
  | fuel + 1, level :: levels => do
    let first ← readLevels fuel levels
    readOperators fuel level levels first

/-- Reads the operators of a level with the operands behind them. -/
def readOperators : Nat → List String → List (List String) → List Char → ExpressionStep (List Char)
  | 0, _, _, value => return value
  | fuel + 1, level, levels, value => do
    match (← get).rest with
    | operator :: rest =>
      if String.ofList operator ∈ level then
        set (⟨rest, operator⟩ : ExpressionWords)
        let other ← readLevels fuel levels
        match applyOperator operator value other with
        | .ok value => readOperators fuel level levels value
        | .error message => throw message
      else return value
    | [] => return value

/-- Reads an operand. -/
def readOperandWord : Nat → ExpressionStep (List Char)
  | 0 => return []
  | fuel + 1 => do
    let word ← nextWord
    match String.ofList word with
    | "(" =>
      let value ← readLevels fuel operatorLevels
      match (← get).rest with
      | [')'] :: rest => modify fun s => { s with rest, last := [')'] }; return value
      | [] => throw ("syntax error: expecting ')' after ".toList ++ quoted (← get).last)
      | other :: _ => throw ("syntax error: expecting ')' instead of ".toList ++ quoted other)
    | ")" => throw "syntax error: unexpected ')'".toList
    | "+" => nextWord
    | "length" => return integerText (← readOperandWord fuel).length
    | "match" => do
      let text ← readOperandWord fuel
      let pattern ← readOperandWord fuel
      match matchStart text pattern with
      | .ok value => return value
      | .error message => throw message
    | "index" => do
      let text ← readOperandWord fuel
      let set ← readOperandWord fuel
      return integerText ((text.findIdx? set.contains).map (· + 1) |>.getD 0 : Nat)
    | "substr" => do
      let text ← readOperandWord fuel
      let start ← readOperandWord fuel
      let length ← readOperandWord fuel
      match integer? start, integer? length with
      | some m, some n =>
        if m ≤ 0 || n ≤ 0 then return [] else return (text.drop (m.toNat - 1)).take n.toNat
      | _, _ => return []
    | _ => return word

end

/-- Writes the value of an expression. -/
def expr : Program := do
  let arguments := (← get).arguments
  let words := if arguments.head? = some ['-', '-'] then arguments.drop 1 else arguments
  if words.isEmpty then misuse 2 "missing operand".toList
  match (readLevels (16 * words.length + 16) operatorLevels).run { rest := words } with
  | .error message => fail 2 message
  | .ok (_, ⟨extra :: _, _⟩) => fail 2 ("syntax error: unexpected argument ".toList ++ quoted extra)
  | .ok (value, _) =>
    out (value ++ ['\n'])
    if isNull value then mark 1

/-! ## The system -/

/-- Writes what the system is called. -/
def uname : Program := do
  let (given, _) ← switches 1
    [⟨'s', "kernel-name", false⟩, ⟨'m', "machine", false⟩, ⟨'o', "operating-system", false⟩,
     ⟨'p', "processor", false⟩]
  let parts :=
    (if given.isEmpty || has given 's' then ["Linux".toList] else []) ++
      (if has given 'm' then ["x86_64".toList] else []) ++
      (if has given 'p' then ["unknown".toList] else []) ++
      (if has given 'o' then ["GNU/Linux".toList] else [])
  out ([' '].intercalate parts ++ ['\n'])

/-- Writes who runs the program. -/
def id : Program := do
  let (given, _) ← switches 1
    [⟨'u', "user", false⟩, ⟨'g', "group", false⟩, ⟨'n', "name", false⟩, ⟨'G', "groups", false⟩]
  let chosen := has given 'u' || has given 'g' || has given 'G'
  out <|
    (if !chosen then "uid=0(root) gid=0(root) groups=0(root)\n"
      else if has given 'n' then "root\n" else "0\n").toList

/-- Writes a text. -/
def writes (text : String) : Program := out text.toList

/-- No program that writes without an end writes more lines. -/
def endlessLines : Nat := 131072

/-- Writes its words again and again. -/
def yes : Program := do
  let words := (← get).arguments
  let line := (if words.isEmpty then ['y'] else [' '].intercalate words) ++ ['\n']
  out (List.replicate endlessLines line).flatten

/-- Makes a file with a name of its own, and writes the name. -/
def mktemp : Program := do
  let (given, operands) ← switches 1
    [⟨'d', "directory", false⟩, ⟨'p', "tmpdir", true⟩, ⟨'t', "", false⟩, ⟨'u', "dry-run", false⟩,
     ⟨'q', "quiet", false⟩]
  let template := operands.head?.getD "tmp.XXXXXXXXXX".toList
  let marks := (template.reverse.takeWhile (· = 'X')).length
  if marks < 3 then fail 1 ("too few X's in template ".toList ++ quoted template)
  let directory := (last? given 'p').getD "/tmp".toList
  let lead := if operands.isEmpty || has given 't' || has given 'p' then directory ++ ['/'] else []
  let rec make : Nat → ProgramStep Unit
    | 0 => fail 1 "cannot make a name".toList
    | fuel + 1 => do
      let digits := Nat.toDigits 10 fuel
      let name := template.take (template.length - marks) ++
        (List.replicate (marks - digits.length) 'x' ++ digits.reverse.take marks)
      let path := lead ++ name
      match ← Job.find path with
      | .ok _ => make fuel
      | .error _ =>
        let target ← pathOf path
        let fault ←
          if has given 'd' then change (·.makeDirectory target) else writeFile path []
        match fault with
        | none => out (path ++ ['\n'])
        | some fault =>
          fail 1 ("failed to create ".toList ++ (if has given 'd' then "directory" else "file").toList ++
            " via template ".toList ++ quoted (lead ++ template) ++ ": ".toList ++ reason fault)
  make 1000

end KeywordIndex.Shell.Utility
