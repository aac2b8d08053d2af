import KeywordIndex.Shell.Job
import KeywordIndex.Shell.Pattern

namespace KeywordIndex.Shell.Utility

open KeywordIndex.Shell.Job Text

/-!
# Programs for lines

Programs that put lines in order, cut parts out of them, join them and change the characters in them.
-/

/-! ## Order -/

/-- A number with a point. -/
structure Numeral where
  /-- All digits as one number. -/
  unscaled : Int
  /-- The digits behind the point. -/
  places : Nat

/-- The number at the start of a text, behind blanks. It is zero if there is none. -/
def Numeral.ofText (cs : List Char) : Numeral :=
  let cs := cs.dropWhile fun c => c = ' ' || c = '\t'
  let (negative, cs) :=
    match cs with
    | '-' :: rest => (true, rest)
    | _ => (false, cs)
  let whole := cs.takeWhile Char.isDigit
  let fraction :=
    match cs.drop whole.length with
    | '.' :: rest => rest.takeWhile Char.isDigit
    | _ => []
  let n : Int := numberIn 10 (whole ++ fraction)
  ⟨if negative then -n else n, fraction.length⟩

/-- The order of numbers. -/
def Numeral.compare (a b : Numeral) : Ordering :=
  Ord.compare (a.unscaled * Nat.pow 10 b.places) (b.unscaled * Nat.pow 10 a.places)

/-- How two texts are compared. -/
structure Collation where
  blanks : Bool := false
  dictionary : Bool := false
  fold : Bool := false
  numeric : Bool := false
  reverse : Bool := false

/-- The collation that some letters ask for. -/
def Collation.ofLetters (letters : List Char) : Collation where
  blanks := letters.contains 'b'
  dictionary := letters.contains 'd'
  fold := letters.contains 'f'
  numeric := letters.contains 'n' || letters.contains 'g'
  reverse := letters.contains 'r'

/-- The order of texts octet by octet. -/
def compareText : List Char → List Char → Ordering
  | [], [] => .eq
  | [], _ :: _ => .lt
  | _ :: _, [] => .gt
  | a :: as, b :: bs => if a < b then .lt else if b < a then .gt else compareText as bs

/-- Compares two texts. -/
def Collation.compare (c : Collation) (a b : List Char) : Ordering :=
  let isBlank (d : Char) : Bool := d = ' ' || d = '\t'
  let shaped (cs : List Char) : List Char :=
    let cs := if c.blanks then cs.dropWhile isBlank else cs
    let cs := if c.dictionary then cs.filter fun d => d.isAlphanum || isBlank d else cs
    if c.fold then cs.map Char.toUpper else cs
  let result :=
    if c.numeric then (Numeral.ofText a).compare (Numeral.ofText b) else compareText (shaped a) (shaped b)
  if c.reverse then result.swap else result

/-- One end of a sort key: a field, and a character in it that may be missing. -/
structure KeyEnd where
  field : Nat
  char : Nat
  blanks : Bool

/-- A part of a line by which lines are sorted. -/
structure SortKey where
  first : KeyEnd
  last : Option KeyEnd
  /-- The letters of the key itself. -/
  letters : List Char

/-- Reads one end of a key: the numbers, the letters, and what follows. -/
def readKeyEnd (cs : List Char) : Option (KeyEnd × List Char × List Char) := do
  let digits := cs.takeWhile Char.isDigit
  let field ← decimal? digits
  let rest := cs.drop digits.length
  let (char, rest) ←
    match rest with
    | '.' :: more =>
      let digits := more.takeWhile Char.isDigit
      (decimal? digits).map fun n => (n, more.drop digits.length)
    | _ => some (0, rest)
  let letters := rest.takeWhile ("bdfginMRhVr".toList.contains ·)
  some (⟨field, char, letters.contains 'b'⟩, letters, rest.drop letters.length)

/-- Reads a key. -/
def readSortKey (cs : List Char) : Option SortKey := do
  let (first, letters, rest) ← readKeyEnd cs
  if first.field = 0 then none
  match rest with
  | [] => some ⟨{ first with char := max 1 first.char }, none, letters⟩
  | ',' :: more =>
    let (last, others, rest) ← readKeyEnd more
    if rest.isEmpty && last.field ≠ 0 then
      some ⟨{ first with char := max 1 first.char }, some last, letters ++ others⟩
    else none
  | _ => none

/-- The offsets at which a field begins and ends. Fields begin with their blanks if no separator is
given. -/
def fieldBounds (separator : Option Char) (line : List Char) (field : Nat) : Nat × Nat :=
  let isBlank (c : Char) : Bool := c = ' ' || c = '\t'
  let lengthOf (cs : List Char) : Nat :=
    match separator with
    | some c => (cs.takeWhile (· ≠ c)).length
    | none =>
      let blanks := (cs.takeWhile isBlank).length
      blanks + ((cs.drop blanks).takeWhile (!isBlank ·)).length
  let gap := if separator.isSome then 1 else 0
  let rec go (start : Nat) : Nat → Nat × Nat
    | 0 => (start, start + lengthOf (line.drop start))
    | n + 1 =>
      let stop := start + lengthOf (line.drop start)
      if line.length ≤ stop then (line.length, line.length) else go (stop + gap) n
  go 0 (field - 1)

/-- The part of a line that a key stands for. -/
def SortKey.part (key : SortKey) (separator : Option Char) (line : List Char) : List Char :=
  let skipBlanks (skips : Bool) (offset : Nat) : Nat :=
    if skips then offset + ((line.drop offset).takeWhile fun c => c = ' ' || c = '\t').length else offset
  let start :=
    skipBlanks key.first.blanks (fieldBounds separator line key.first.field).1 + (key.first.char - 1)
  let stop :=
    match key.last with
    | none => line.length
    | some last =>
      let (begin, finish) := fieldBounds separator line last.field
      if last.char = 0 then finish else min line.length (skipBlanks last.blanks begin + last.char)
  (line.take stop).drop start

/-- Sorts lines. -/
def sort : Program := do
  let (given, operands) ← switches 2
    ([⟨'n', "numeric-sort", false⟩, ⟨'r', "reverse", false⟩, ⟨'f', "ignore-case", false⟩,
      ⟨'b', "ignore-leading-blanks", false⟩, ⟨'d', "dictionary-order", false⟩, ⟨'u', "unique", false⟩,
      ⟨'s', "stable", false⟩, ⟨'c', "check", false⟩, ⟨'o', "output", true⟩, ⟨'t', "field-separator", true⟩,
      ⟨'k', "key", true⟩, ⟨'m', "merge", false⟩, ⟨'g', "general-numeric-sort", false⟩] ++ letters "C")
  let separator ←
    match last? given 't' with
    | none => pure none
    | some [c] => pure (some c)
    | some ['\\', '0'] => pure (some '\x00')
    | some [] => fail 2 "empty tab".toList
    | some word => fail 2 ("multi-character tab ".toList ++ quoted word)
  let keys ← (given.filter (·.1 = 'k')).mapM fun (_, word) => do
    match readSortKey word with
    | some key => return key
    | none =>
      match readKeyEnd word with
      | some (e, _, _) =>
        if e.field = 0 then fail 2 ("-: invalid field specification ".toList.drop 3 ++ quoted word)
        else fail 2 ("stray character in field spec: invalid field specification ".toList ++ quoted word)
      | none => fail 2 ("invalid number at field start: invalid count at start of ".toList ++ quoted word)
  let overall := Collation.ofLetters (given.map (·.1))
  let compareKeys (a b : List Char) : Ordering :=
    if keys.isEmpty then overall.compare a b
    else
      keys.foldl
        (fun result key =>
          let collation := if key.letters.isEmpty then overall else Collation.ofLetters key.letters
          result.then (collation.compare (key.part separator a) (key.part separator b)))
        .eq
  let compareLines (a b : List Char) : Ordering :=
    if has given 's' || has given 'u' then compareKeys a b
    else
      let rest := compareText a b
      (compareKeys a b).then (if overall.reverse then rest.swap else rest)
  let contents ← (orInput operands).mapM fun operand => do
    match ← readOperand operand with
    | .ok content => return content
    | .error .isDirectory => fail 2 ("read failed: ".toList ++ operand ++ ": Is a directory".toList)
    | .error fault => fail 2 ("cannot read: ".toList ++ operand ++ ": ".toList ++ reason fault)
  let all := contents.flatMap Job.lines
  if has given 'c' || has given 'C' then
    let disorder := (List.zip all (all.drop 1)).findIdx? fun (a, b) =>
      match compareLines a b with
      | .gt => true
      | .eq => has given 'u'
      | .lt => false
    match disorder with
    | none => return
    | some n =>
      if !has given 'C' then
        warn ((operands.head?.getD ['-']) ++ s!":{n + 2}: disorder: ".toList ++ (all[n + 1]?).getD [])
      throw 1
  let sorted := all.mergeSort fun a b => compareLines a b ≠ .gt
  let kept :=
    if has given 'u' then
      sorted.foldr
        (fun line rest =>
          match rest with
          | next :: others => if compareKeys line next = .eq then line :: others else line :: rest
          | [] => [line])
        []
    else sorted
  match last? given 'o' with
  | none => out (unlines kept)
  | some path =>
    match ← writeFile path (unlines kept) with
    | none => return
    | some fault => fail 2 ("open failed: ".toList ++ path ++ ": ".toList ++ reason fault)

/-- Runs of lines that count as equal. -/
def linesInRuns (same : List Char → List Char → Bool) : List (List Char) → List (List Char × Nat)
  | [] => []
  | line :: rest =>
    match linesInRuns same rest with
    | (next, n) :: runs => if same line next then (line, n + 1) :: runs else (line, 1) :: (next, n) :: runs
    | [] => [(line, 1)]

/-- Leaves out lines that repeat the line before them. -/
def uniq : Program := do
  let (given, operands) ← switches 1
    [⟨'c', "count", false⟩, ⟨'d', "repeated", false⟩, ⟨'u', "unique", false⟩, ⟨'i', "ignore-case", false⟩,
     ⟨'f', "skip-fields", true⟩, ⟨'s', "skip-chars", true⟩, ⟨'w', "check-chars", true⟩]
  let number (letter : Char) : Nat := ((last? given letter).bind decimal?).getD 0
  let source := operands.head?.getD ['-']
  match operands with
  | _ :: _ :: extra :: _ => misuse 1 ("extra operand ".toList ++ Job.quoted extra)
  | _ => pure ()
  match ← readOperand source with
  | .error .isDirectory =>
    fail 1 ("error reading ".toList ++ quoted source ++ ": Is a directory".toList)
  | .error fault => fail 1 (quotedIfOdd source ++ ": ".toList ++ reason fault)
  | .ok content =>
    let isBlank (c : Char) : Bool := c = ' ' || c = '\t'
    let rec skipFields (line : List Char) : Nat → List Char
      | 0 => line
      | n + 1 => skipFields ((line.dropWhile isBlank).dropWhile (!isBlank ·)) n
    let part (line : List Char) : List Char :=
      let rest := (skipFields line (number 'f')).drop (number 's')
      let rest := if has given 'w' then rest.take (number 'w') else rest
      if has given 'i' then rest.map Char.toUpper else rest
    let runs := linesInRuns (fun a b => part a = part b) (Job.lines content)
    let kept := runs.filter fun (_, n) =>
      (!has given 'd' || 1 < n) && (!has given 'u' || n = 1)
    let text := kept.flatMap fun (line, n) =>
      let digits := Nat.toDigits 10 n
      (if has given 'c' then List.replicate (7 - digits.length) ' ' ++ digits ++ [' '] else []) ++ line ++
        ['\n']
    match operands with
    | _ :: target :: _ =>
      match ← writeFile target text with
      | none => return
      | some fault => fail 1 (quotedIfOdd target ++ ": ".toList ++ reason fault)
    | _ => out text

/-! ## Parts of lines -/

/-- Some numbers: from one bound to the other, or without an upper bound. -/
structure NumberRange where
  low : Nat
  high : Option Nat

/-- Whether a number lies in one of the ranges. -/
def inRanges (ranges : List NumberRange) (n : Nat) : Bool :=
  ranges.any fun r => r.low ≤ n && (r.high.all (n ≤ ·))

/-- Reads ranges of numbers, or says what is wrong with them. -/
def readRanges (word : List Char) (fields : Bool) : Except (List Char) (List NumberRange) :=
  let kind := if fields then "fields" else "byte/character positions"
  (split ',' word).mapM fun piece =>
    let low := piece.takeWhile Char.isDigit
    let rest := piece.drop low.length
    let zero : Except (List Char) NumberRange :=
      .error (s!"{kind} are numbered from 1").toList
    let invalid : Except (List Char) NumberRange :=
      .error ((if fields then "invalid field value " else "invalid byte/character position ").toList ++
        Job.quoted piece)
    match rest with
    | [] =>
      match decimal? low with
      | some 0 | none => if low.isEmpty && !piece.isEmpty then invalid else zero
      | some n => .ok ⟨n, some n⟩
    | '-' :: high =>
      match decimal? low, decimal? high with
      | some 0, _ => zero
      | some n, some m => if m < n then .error "invalid decreasing range".toList else .ok ⟨n, some m⟩
      | none, some m => .ok ⟨1, some m⟩
      | some n, none => if high.isEmpty then .ok ⟨n, none⟩ else invalid
      | none, none => if high.isEmpty then .error "invalid range with no endpoint: -".toList else invalid
    | _ => invalid

/-- Cuts parts out of lines. -/
def cut : Program := do
  let (given, operands) ← switches 1
    [⟨'f', "fields", true⟩, ⟨'d', "delimiter", true⟩, ⟨'c', "characters", true⟩, ⟨'b', "bytes", true⟩,
     ⟨'s', "only-delimited", false⟩, ⟨'n', "", false⟩, ⟨'C', "complement", false⟩,
     ⟨'o', "output-delimiter", true⟩]
  let lists := given.filter fun g => g.1 = 'f' || g.1 = 'c' || g.1 = 'b'
  match lists with
  | [] => misuse 1 "you must specify a list of bytes, characters, or fields".toList
  | [(letter, word)] =>
    let fields := letter = 'f'
    let delimiter ←
      match last? given 'd' with
      | none => pure '\t'
      | some [] => pure '\x00'
      | some [c] => pure c
      | some _ => misuse 1 "the delimiter must be a single character".toList
    if has given 'd' && !fields then
      misuse 1 "an input delimiter may be specified only when operating on fields".toList
    match readRanges word fields with
    | .error message => misuse 1 message
    | .ok ranges =>
      let chosen (n : Nat) : Bool := inRanges ranges n != has given 'C'
      let joint := (last? given 'o').getD [delimiter]
      (orInput operands).forM fun operand => do
        match ← readOperand operand with
        | .error fault =>
          warn (quotedIfOdd operand ++ ": ".toList ++ reason fault)
          mark 1
        | .ok content =>
          (Job.lines content).forM fun line => do
            if fields then
              if line.contains delimiter then
                let kept := (split delimiter line).zipIdx.filter fun (_, n) => chosen (n + 1)
                out (joint.intercalate (kept.map (·.1)) ++ ['\n'])
              else if !has given 's' then out (line ++ ['\n'])
            else
              let kept := line.zipIdx.filter fun (_, n) => chosen (n + 1)
              out (kept.map (·.1) ++ ['\n'])
  | _ => misuse 1 "only one type of list may be specified".toList

/-- The separators that a list of them stands for. A backslash gives some letters another meaning. -/
def readSeparators : List Char → List (List Char)
  | [] => []
  | '\\' :: c :: rest =>
    (match c with
      | 'n' => ['\n']
      | 't' => ['\t']
      | '0' => []
      | _ => [c]) :: readSeparators rest
  | c :: rest => [c] :: readSeparators rest

/-- Joins items with separators taken in turn. -/
def joinInTurn (separators : List (List Char)) (items : List (List Char)) : List Char :=
  (items.zipIdx.map fun (item, n) =>
    (if n = 0 then [] else (separators[(n - 1) % separators.length]?).getD []) ++ item).flatten

/-- Joins lines of several contents, or all lines of each. -/
def paste : Program := do
  let (given, operands) ← switches 1 [⟨'d', "delimiters", true⟩, ⟨'s', "serial", false⟩]
  let separators := readSeparators ((last? given 'd').getD ['\t'])
  let operands := orInput operands
  let dashes := (operands.filter (· = ['-'])).length
  let input ← if dashes = 0 then pure [] else do pure (Job.lines (← readInput))
  let columns ← operands.zipIdx.mapM fun (operand, n) => do
    if operand = ['-'] then
      if has given 's' then return if (operands.take n).contains ['-'] then [] else input
      let turn := ((operands.take n).filter (· = ['-'])).length
      return (input.zipIdx.filter fun (_, k) => k % dashes = turn).map (·.1)
    else
      match ← readFile operand with
      | .ok content => return Job.lines content
      | .error fault => fail 1 (quotedIfOdd operand ++ ": ".toList ++ reason fault)
  if has given 's' then columns.forM fun column => out (joinInTurn separators column ++ ['\n'])
  else
    let height := columns.foldl (fun n column => max n column.length) 0
    (List.range height).forM fun n =>
      out (joinInTurn separators (columns.map fun column => (column[n]?).getD []) ++ ['\n'])

/-- Breaks lines that are longer than some width. -/
def fold : Program := do
  let (given, operands) ← switches 1 [⟨'w', "width", true⟩, ⟨'b', "bytes", false⟩, ⟨'s', "spaces", false⟩]
  let width := max 1 (((last? given 'w').bind decimal?).getD 80)
  let content ← readAll 1 operands
  let rec broken : Nat → List Char → List Char
    | 0, line => line
    | fuel + 1, line =>
      if line.length ≤ width then line
      else
        let piece := line.take width
        let kept :=
          if has given 's' && piece.contains ' ' then
            piece.length - (piece.reverse.takeWhile (· ≠ ' ')).length
          else width
        line.take kept ++ '\n' :: broken fuel (line.drop kept)
  (linesWithEnds content).forM fun line => do
    let body := if line.getLast? = some '\n' then line.dropLast else line
    out (broken body.length body ++ line.drop body.length)

/-! ## Characters -/

/-- A part of a set of characters. -/
inductive SetPart where
  | chars (cs : List Char)
  /-- A character as often as needed, if no number is given. -/
  | repeated (c : Char) (count : Option Nat)
  /-- Capital letters, or small ones. -/
  | cased (upper : Bool)

/-- All octets. -/
def allOctets : List Char := (List.range 256).map Char.ofNat

/-- The characters of a set in which escapes have been found: each comes with a mark if it was
escaped. -/
def setChars : Nat → List Char → List PatternChar
  | 0, _ => []
  | _ + 1, [] => []
  | fuel + 1, '\\' :: rest =>
    let digits := (rest.take 3).takeWhile fun c => '0' ≤ c && c ≤ '7'
    if !digits.isEmpty then
      let digits := if 255 < numberIn 8 digits then digits.take 2 else digits
      ⟨Char.ofNat (numberIn 8 digits), true⟩ :: setChars fuel (rest.drop digits.length)
    else
      match rest with
      | [] => [⟨'\\', true⟩]
      | c :: rest =>
        let d :=
          match c with
          | 'a' => '\x07'
          | 'b' => '\x08'
          | 'f' => '\x0c'
          | 'n' => '\n'
          | 'r' => '\r'
          | 't' => '\t'
          | 'v' => '\x0b'
          | _ => c
        ⟨d, true⟩ :: setChars fuel rest
  | fuel + 1, c :: rest => ⟨c, false⟩ :: setChars fuel rest

/-- Reads a set of characters, or says what is wrong with it. -/
def readSet : Nat → Pattern → Except (List Char) (List SetPart)
  | 0, _ => .ok []
  | _ + 1, [] => .ok []
  | fuel + 1, p :: rest =>
    let bracketed : Option (Except (List Char) (SetPart × Pattern)) :=
      if !p.means '[' then none
      else
        match rest with
        | q :: inside =>
          if q.means ':' then
            let name := inside.takeWhile (!·.means ':')
            match inside.drop name.length with
            | _ :: close :: after =>
              if close.means ']' then
                let word := name.map (·.char)
                if word = "upper".toList then some (.ok (.cased true, after))
                else if word = "lower".toList then some (.ok (.cased false, after))
                else
                  match namedClass? word with
                  | some inClass => some (.ok (.chars (allOctets.filter inClass), after))
                  | none => some (.error ("invalid character class ".toList ++ quoted word))
              else none
            | _ => none
          else if q.means '=' then
            match inside with
            | c :: e :: close :: after =>
              if e.means '=' && close.means ']' then some (.ok (.chars [c.char], after)) else none
            | _ => none
          else
            match inside with
            | star :: more =>
              if star.means '*' then
                let digits := more.takeWhile fun d => d.char.isDigit
                match more.drop digits.length with
                | close :: after =>
                  if close.means ']' then
                    let cs := digits.map (·.char)
                    let count := if cs.head? = some '0' then numberIn 8 cs else numberIn 10 cs
                    some (.ok (.repeated q.char (if count = 0 then none else some count), after))
                  else none
                | [] => none
              else none
            | [] => none
        | [] => none
    match bracketed with
    | some (.error message) => .error message
    | some (.ok (part, after)) => (readSet fuel after).map (part :: ·)
    | none =>
      match rest with
      | dash :: high :: after =>
        if dash.means '-' then
          if high.char < p.char then
            .error ("range-endpoints of ".toList ++ quoted [p.char, '-', high.char] ++
              " are in reverse collating sequence order".toList)
          else
            let range := (List.range (high.char.toNat - p.char.toNat + 1)).map fun n =>
              Char.ofNat (p.char.toNat + n)
            (readSet fuel after).map (.chars range :: ·)
        else (readSet fuel rest).map (.chars [p.char] :: ·)
      | _ => (readSet fuel rest).map (.chars [p.char] :: ·)

/-- The capital or the small letters. -/
def casedLetters (upper : Bool) : List Char :=
  allOctets.filter (if upper then Char.isUpper else Char.isLower)

/-- The characters of a set, of which some are repeated so that there are `length` of them. -/
def SetPart.expand (parts : List SetPart) (length : Nat) : List Char :=
  let size (part : SetPart) : Nat :=
    match part with
    | .chars cs => cs.length
    | .repeated _ count => count.getD 0
    | .cased _ => 26
  let missing := length - (parts.map size).foldl (· + ·) 0
  parts.flatMap fun
    | .chars cs => cs
    | .repeated c (some count) => List.replicate count c
    | .repeated c none => List.replicate missing c
    | .cased upper => casedLetters upper

/-- Leaves out the second of two equal characters that follow each other, if they are in the set. -/
def squeezeChars (set : List Char) : List Char → List Char
  | a :: b :: rest =>
    if a = b && set.contains a then squeezeChars set (b :: rest) else a :: squeezeChars set (b :: rest)
  | cs => cs

/-- Changes, removes or squeezes characters. -/
def tr : Program := do
  let (given, operands) ← switches 1
    ([⟨'c', "complement", false⟩, ⟨'d', "delete", false⟩, ⟨'s', "squeeze-repeats", false⟩,
      ⟨'t', "truncate-set1", false⟩] ++ letters "C")
  let deletes := has given 'd'
  let squeezes := has given 's'
  let wanted := if deletes != squeezes then 1 else 2
  let most := if deletes && !squeezes then 1 else 2
  let read (word : List Char) : ProgramStep (List SetPart) := do
    match readSet (word.length + 1) (setChars word.length word) with
    | .ok parts => return parts
    | .error message => fail 1 message
  let complain (message : List Char) (hint : String) : ProgramStep Unit := do
    warn message
    if hint ≠ "" then err (hint.toList ++ ['\n'])
    err ("Try '".toList ++ (← get).name ++ " --help' for more information.\n".toList)
    throw 1
  match operands with
  | [] => misuse 1 "missing operand".toList
  | first :: others =>
    if operands.length < wanted then
      complain ("missing operand after ".toList ++ quoted first)
        (if deletes then "Two strings must be given when both deleting and squeezing repeats."
          else "Two strings must be given when translating.")
    if most < operands.length then
      complain ("extra operand ".toList ++ quoted ((operands[most]?).getD []))
        (if deletes && !squeezes && operands.length = 2 then
          "Only one string may be given when deleting without squeezing repeats." else "")
    let source ← read first
    let plain := SetPart.expand source 0
    let complements := has given 'c' || has given 'C'
    let set := if complements then allOctets.filter (!plain.contains ·) else plain
    let second? ← others.head?.mapM fun word => do return (word, ← read word)
    match second? with
    | none =>
      let content ← readInput
      let kept := if deletes then content.filter (!set.contains ·) else content
      out (if squeezes && !deletes then squeezeChars set kept else kept)
    | some (word, parts) =>
      let target := SetPart.expand parts set.length
      let content ← readInput
      if deletes then
        out (squeezeChars target (content.filter (!set.contains ·)))
      else if word.isEmpty && !has given 't' then
        fail 1 "when not truncating set1, string2 must be non-empty".toList
      else
        let filled := target ++ List.replicate (set.length - target.length) (target.getLast?.getD ' ')
        let pairs := if has given 't' then set.zip target else set.zip filled
        let table := pairs.foldl (fun (table : Array Char) (c, d) => table.setIfInBounds c.toNat d)
          allOctets.toArray
        let changed := content.map fun c => (table[c.toNat]?).getD c
        out (if squeezes then squeezeChars target changed else changed)

end KeywordIndex.Shell.Utility
