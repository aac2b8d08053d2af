import KeywordIndex.Shell.Job

namespace KeywordIndex.Shell.Utility

open KeywordIndex.Shell.Job Text

/-!
# Programs for contents

Programs that show contents of files or of the input, all of them or a part, and count what is in them.
-/

/-- Characters that show a character that is not printed. -/
def caretForm (keepTab : Bool) (c : Char) : List Char :=
  let n := c.toNat
  if c = '\n' || (c = '\t' && keepTab) then [c]
  else
    let (lead, n) := if 128 ≤ n then (['M', '-'], n - 128) else ([], n)
    lead ++ (if n < 32 then ['^', Char.ofNat (n + 64)] else if n = 127 then ['^', '?'] else [Char.ofNat n])

/-- Lines of which no two empty ones follow each other. -/
def squeezed (emptyBefore : Bool) : List (List Char) → List (List Char)
  | [] => []
  | line :: rest =>
    let isEmpty := line = ['\n']
    if isEmpty && emptyBefore then squeezed true rest else line :: squeezed isEmpty rest

/-- A number at the right end of some room. -/
def rightAligned (width : Nat) (n : Nat) : List Char :=
  let digits := Nat.toDigits 10 n
  List.replicate (width - digits.length) ' ' ++ digits

/-- Writes contents one behind the other. -/
def cat : Program := do
  let (given, operands) ← switches 1
    ([⟨'n', "number", false⟩, ⟨'b', "number-nonblank", false⟩, ⟨'s', "squeeze-blank", false⟩,
      ⟨'E', "show-ends", false⟩, ⟨'T', "show-tabs", false⟩, ⟨'v', "show-nonprinting", false⟩,
      ⟨'A', "show-all", false⟩] ++ letters "etu")
  let has := has given
  let ends := has 'E' || has 'A' || has 'e'
  let tabs := has 'T' || has 'A' || has 't'
  let caret := has 'v' || has 'A' || has 'e' || has 't'
  let plain := !(ends || tabs || caret || has 'n' || has 'b' || has 's')
  let _ ← (orInput operands).foldlM
    (fun (number : Nat) operand => do
      match ← readOperand operand with
      | .error fault =>
        warn (quotedIfOdd operand ++ ": ".toList ++ reason fault)
        mark 1
        return number
      | .ok content =>
        if plain then
          out content
          return number
        let lines := linesWithEnds content
        let lines := if has 's' then squeezed false lines else lines
        lines.foldlM
          (fun number line => do
            let counts := has 'b' && line ≠ ['\n'] || has 'n' && !has 'b'
            let shown := line.flatMap fun c =>
              if c = '\n' then (if ends then ['$', '\n'] else ['\n'])
              else if c = '\t' then (if tabs then ['^', 'I'] else ['\t'])
              else if caret then caretForm true c else [c]
            out ((if counts then rightAligned 6 (number + 1) ++ ['\t'] else []) ++ shown)
            return if counts then number + 1 else number)
          number)
    0

/-- Writes the lines of contents from the last to the first. -/
def tac : Program := do
  let (_, operands) ← switches 1 []
  (orInput operands).forM fun operand => do
    match ← readOperand operand with
    | .ok content => out (linesWithEnds content).reverse.flatten
    | .error .isDirectory =>
      warn (operand ++ ": read error: Invalid argument".toList)
      mark 1
    | .error fault =>
      warn ("failed to open ".toList ++ quoted operand ++ " for reading: ".toList ++ reason fault)
      mark 1

/-- Writes every line backwards. -/
def rev : Program := do
  let (_, operands) ← switches 1 []
  (orInput operands).forM fun operand => do
    match ← readOperand operand with
    | .ok content =>
      out ((linesWithEnds content).flatMap fun line =>
        if line.getLast? = some '\n' then line.dropLast.reverse ++ ['\n'] else line.reverse)
    | .error fault =>
      let lead := if fault = .isDirectory then [] else "cannot open ".toList
      warn (lead ++ operand ++ ": ".toList ++ reason fault)
      mark 1

/-- How much of a content is shown. -/
structure Extent where
  /-- Octets are counted instead of lines. -/
  octets : Bool := false
  /-- The sign before the number. -/
  sign : Option Char := none
  number : Nat := 10

/-- Reads a number of lines or octets with its sign. -/
def readExtent (octets : Bool) (word : List Char) : ProgramStep Extent := do
  let (sign, digits) :=
    match word with
    | '-' :: rest => (some '-', rest)
    | '+' :: rest => (some '+', rest)
    | _ => (none, word)
  let number := digits.takeWhile Char.isDigit
  let factor :=
    match String.ofList (digits.drop number.length) with
    | "" => some 1
    | "b" => some 512
    | "k" | "K" | "KiB" => some 1024
    | "kB" | "KB" => some 1000
    | "M" | "MiB" => some 1048576
    | "MB" => some 1000000
    | _ => none
  match decimal? number, factor with
  | some n, some factor => return ⟨octets, sign, n * factor⟩
  | _, _ =>
    fail 1 ("invalid number of ".toList ++ (if octets then "bytes" else "lines").toList ++ ": ".toList ++
      quoted word)

/-- Writes parts of contents, each under its name if there are several. -/
def showParts (given : List Given) (operands : List (List Char)) (part : List Char → List Char) :
    ProgramStep Unit := do
  let operands := orInput operands
  let titled := (operands.length > 1 || has given 'v') && !has given 'q'
  let _ ← operands.foldlM
    (fun (first : Bool) operand => do
      let name := if operand = ['-'] then "standard input".toList else operand
      let title : ProgramStep Unit :=
        if titled then
          out ((if first then [] else ['\n']) ++ "==> ".toList ++ name ++ " <==\n".toList)
        else return
      match ← readOperand operand with
      | .ok content =>
        title
        out (part content)
        return false
      | .error .isDirectory =>
        title
        warn ("error reading ".toList ++ quoted operand ++ ": Is a directory".toList)
        mark 1
        return false
      | .error fault =>
        warn ("cannot open ".toList ++ quoted operand ++ " for reading: ".toList ++ reason fault)
        mark 1
        return first)
    true

/-- The options of programs that show the start or the end of contents. -/
def partSwitches : List Switch :=
  [⟨'n', "lines", true⟩, ⟨'c', "bytes", true⟩, ⟨'q', "quiet", false⟩, ⟨'v', "verbose", false⟩]

/-- Arguments in which a number behind a dash or a plus sign is the value of an option. -/
def withoutBareNumber (plus : Bool) (arguments : List (List Char)) : List (List Char) :=
  match arguments with
  | (sign :: digits) :: rest =>
    if (sign = '-' || (plus && sign = '+')) && (decimal? digits).isSome then
      ['-', 'n'] :: (if sign = '+' then '+' :: digits else digits) :: rest
    else arguments
  | _ => arguments

/-- Writes the starts of contents. -/
def head : Program := do
  modify fun j => { j with arguments := withoutBareNumber false j.arguments }
  let (given, operands) ← switches 1 partSwitches
  let extent ←
    match (given.filter fun g => g.1 = 'n' || g.1 = 'c').getLast? with
    | some (letter, word) => readExtent (letter = 'c') word
    | none => pure {}
  showParts given operands fun content =>
    let shown {α : Type} (all : List α) : List α :=
      if extent.sign = some '-' then all.take (all.length - extent.number) else all.take extent.number
    if extent.octets then shown content else (shown (linesWithEnds content)).flatten

/-- Writes the ends of contents. -/
def tail : Program := do
  modify fun j => { j with arguments := withoutBareNumber true j.arguments }
  let (given, operands) ← switches 1 partSwitches
  let extent ←
    match (given.filter fun g => g.1 = 'n' || g.1 = 'c').getLast? with
    | some (letter, word) => readExtent (letter = 'c') word
    | none => pure {}
  showParts given operands fun content =>
    let shown {α : Type} (all : List α) : List α :=
      if extent.sign = some '+' then all.drop (extent.number - 1)
      else all.drop (all.length - extent.number)
    if extent.octets then shown content else (shown (linesWithEnds content)).flatten

/-- What is counted in a content. -/
structure Counts where
  lines : Nat := 0
  words : Nat := 0
  octets : Nat := 0
  /-- The width of the widest line. -/
  width : Nat := 0

/-- Counts lines, words and octets. -/
def Counts.ofText (cs : List Char) : Counts :=
  let isSpace (c : Char) : Bool := c = ' ' || (9 ≤ c.toNat && c.toNat ≤ 13)
  let width (line : List Char) : Nat :=
    line.foldl
      (fun n c => if c = '\t' then n / 8 * 8 + 8 else if 32 ≤ c.toNat && c.toNat < 127 then n + 1 else n)
      0
  ⟨cs.count '\n', ((splitWhere isSpace cs).filter (!·.isEmpty)).length, cs.length,
    (split '\n' cs).foldl (fun n line => max n (width line)) 0⟩

/-- Counts taken together. -/
def Counts.add (a b : Counts) : Counts :=
  ⟨a.lines + b.lines, a.words + b.words, a.octets + b.octets, max a.width b.width⟩

/-- Counts lines, words and octets of contents. -/
def wc : Program := do
  let (given, operands) ← switches 1
    [⟨'l', "lines", false⟩, ⟨'w', "words", false⟩, ⟨'c', "bytes", false⟩, ⟨'m', "chars", false⟩,
     ⟨'L', "max-line-length", false⟩]
  let standard := given.isEmpty
  let chosen (c : Counts) : List Nat :=
    (if standard || has given 'l' then [c.lines] else []) ++
      (if standard || has given 'w' then [c.words] else []) ++
      (if has given 'm' then [c.octets] else []) ++
      (if standard || has given 'c' then [c.octets] else []) ++
      (if has given 'L' then [c.width] else [])
  let inputs := orInput operands
  let sizes ← inputs.mapM fun operand => do
    if operand = ['-'] then return some (← get).inputSize
    else
      match ← find operand with
      | .ok (_, .file content _) => return some (some content.length)
      | .ok (_, .program) => return some (some 0)
      | .ok _ => return some none
      | .error _ => return none
  let total := (sizes.map fun size => (size.join).getD 0).foldl (· + ·) 0
  let digits := (Nat.toDigits 10 total).length
  let width :=
    if inputs.length = 1 && (chosen {}).length = 1 then 1
    else
      match sizes with
      | none :: _ => 1
      | _ => if sizes.contains (some none) then max 7 digits else digits
  let print (counts : Counts) (name : List Char) : ProgramStep Unit :=
    out ([' '].intercalate ((chosen counts).map (rightAligned width)) ++
      (if name.isEmpty then [] else ' ' :: name) ++ ['\n'])
  let sum ← inputs.foldlM
    (fun (sum : Counts) operand => do
      match ← readOperand operand with
      | .ok content =>
        let counts := Counts.ofText content
        print counts (if operands.isEmpty then [] else operand)
        return sum.add counts
      | .error fault =>
        warn (quotedIfOdd operand ++ ": ".toList ++ reason fault)
        mark 1
        if fault = .isDirectory then print {} operand
        return sum)
    {}
  if operands.length > 1 then print sum "total".toList

/-- Writes the input to the output and to files. -/
def tee : Program := do
  let (given, operands) ← switches 1 ([⟨'a', "append", false⟩] ++ letters "ip")
  let content ← readInput
  out content
  operands.forM fun operand => do
    let before ← readFile operand
    let start := if has given 'a' then before.toOption.getD [] else []
    match ← writeFile operand (start ++ content) with
    | none => return
    | some fault =>
      warn (quotedIfOdd operand ++ ": ".toList ++ reason fault)
      mark 1

/-- Writes contents with a number before each line that is not empty, or before each line. -/
def nl : Program := do
  let (given, operands) ← switches 1
    [⟨'b', "body-numbering", true⟩, ⟨'w', "number-width", true⟩, ⟨'s', "number-separator", true⟩,
     ⟨'v', "starting-line-number", true⟩, ⟨'i', "line-increment", true⟩, ⟨'n', "number-format", true⟩]
  let number (letter : Char) (usual : Nat) : Nat := ((last? given letter).bind decimal?).getD usual
  let width := number 'w' 6
  let separator := (last? given 's').getD ['\t']
  let all := last? given 'b' = some ['a']
  let never := last? given 'b' = some ['n']
  let written (n : Nat) : List Char :=
    let digits := Nat.toDigits 10 n
    match String.ofList ((last? given 'n').getD "rn".toList) with
    | "ln" => digits ++ List.replicate (width - digits.length) ' '
    | "rz" => List.replicate (width - digits.length) '0' ++ digits
    | _ => rightAligned width n
  let content ← readAll 1 operands
  let _ ← (Job.lines content).foldlM
    (fun (n : Nat) line => do
      if !never && (all || !line.isEmpty) then
        out (written n ++ separator ++ line ++ ['\n'])
        return n + number 'i' 1
      else
        out (List.replicate (width + separator.length) ' ' ++ line ++ ['\n'])
        return n)
    (number 'v' 1)

/-- The characters for six bits each. -/
def sixBitAlphabet : List Char :=
  "ABCDEFGHIJKLMNOPQRSTUVWXYZabcdefghijklmnopqrstuvwxyz0123456789+/".toList

/-- Three octets at a time as four characters. -/
def inSixBits : List Char → List Char
  | [] => []
  | a :: rest =>
    let digit (n : Nat) : Char := (sixBitAlphabet[n % 64]?).getD '='
    match rest with
    | [] =>
      let n := a.toNat * 65536
      [digit (n / 262144), digit (n / 4096), '=', '=']
    | [b] =>
      let n := a.toNat * 65536 + b.toNat * 256
      [digit (n / 262144), digit (n / 4096), digit (n / 64), '=']
    | b :: c :: rest =>
      let n := a.toNat * 65536 + b.toNat * 256 + c.toNat
      [digit (n / 262144), digit (n / 4096), digit (n / 64), digit n] ++ inSixBits rest

/-- Four characters at a time as three octets. -/
def outOfSixBits : List Nat → List Char
  | a :: b :: c :: d :: rest =>
    let n := a * 262144 + b * 4096 + c * 64 + d
    [n / 65536, n / 256 % 256, n % 256].map Char.ofNat ++ outOfSixBits rest
  | [a, b, c] =>
    let n := a * 262144 + b * 4096 + c * 64
    [n / 65536, n / 256 % 256].map Char.ofNat
  | [a, b] => [Char.ofNat ((a * 262144 + b * 4096) / 65536)]
  | _ => []

/-- Writes the octets of a content as printable characters, or reads them back. -/
def base64 : Program := do
  let (given, operands) ← switches 1
    [⟨'d', "decode", false⟩, ⟨'w', "wrap", true⟩, ⟨'i', "ignore-garbage", false⟩]
  let content ← readAll 1 (operands.take 1)
  if has given 'd' then
    let kept := content.filter (· ≠ '\n')
    let codes := kept.filterMap fun c => sixBitAlphabet.findIdx? (· = c)
    out (outOfSixBits codes)
    if !has given 'i' && kept.any (fun c => c ≠ '=' && !sixBitAlphabet.contains c) then
      fail 1 "invalid input".toList
  else
    let width := ((last? given 'w').bind decimal?).getD 76
    let text := inSixBits content
    let rec wrapped : Nat → List Char → List Char
      | 0, _ => []
      | fuel + 1, cs =>
        if cs.isEmpty then [] else cs.take width ++ '\n' :: wrapped fuel (cs.drop width)
    out (if width = 0 then text else wrapped (text.length + 1) text)

/-- Compares two contents octet by octet. -/
def cmp : Program := do
  let (given, operands) ← switches 2 [⟨'s', "quiet", false⟩, ⟨'b', "print-bytes", false⟩]
  match operands with
  | [] => misuse 2 "missing operand after 'cmp'".toList
  | first :: rest =>
    let second := rest.head?.getD ['-']
    match ← readOperand first, ← readOperand second with
    | .ok a, .ok b =>
      let same := (a.zip b).takeWhile fun (x, y) => x = y
      if a = b then return
      if !has given 's' then
        let line := (a.take same.length).count '\n'
        if same.length = min a.length b.length then
          let shorter := if a.length < b.length then first else second
          let place :=
            if (same.getLast?.map (·.1)) = some '\n' then s!"line {line}" else s!"in line {line + 1}"
          err ("cmp: EOF on ".toList ++ shorter ++
            (if same.isEmpty then " which is empty\n".toList
            else s!" after byte {same.length}, {place}\n".toList))
        else
          out (first ++ [' '] ++ second ++
            s!" differ: char {same.length + 1}, line {line + 1}\n".toList)
      throw 1
    | .error fault, _ =>
      warn (first ++ ": ".toList ++ reason fault)
      throw 2
    | _, .error fault =>
      warn (second ++ ": ".toList ++ reason fault)
      throw 2

end KeywordIndex.Shell.Utility
