import KeywordIndex.Shell.Job
import KeywordIndex.Shell.RegularExpression

namespace KeywordIndex.Shell.Utility

open KeywordIndex.Shell.Job Text

/-!
# Editing lines

`sed` reads lines one after another, and runs the commands of its program on each of them. A command runs
on the lines that it is addressed to.
-/

/-- Which lines a command is addressed to. -/
inductive EditAddress where
  | line (n : Nat)
  | last
  | fits (e : RegularExpression)
  /-- A line and every so many behind it. -/
  | every (first step : Nat)

/-- Where a range of lines ends. -/
inductive EditEnd where
  | at (a : EditAddress)
  /-- That many lines behind its start. -/
  | lines (n : Nat)

/-- The lines that a command runs on. -/
structure EditSelection where
  first : Option EditAddress := none
  last : Option EditEnd := none
  negated : Bool := false

/-- How the case of letters is changed from some point on. -/
inductive CaseChange where
  | none
  | upper
  | lower
  deriving DecidableEq

/-- A part of the text that takes the place of a match. -/
inductive EditPart where
  | text (cs : List Char)
  /-- What a group has matched; group zero is the whole match. -/
  | group (n : Nat)
  | change (c : CaseChange)
  /-- The case of the next letter only. -/
  | changeNext (c : CaseChange)

/-- A substitution. -/
structure Substitution where
  expression : RegularExpression
  parts : List EditPart
  /-- The first match that is replaced. -/
  start : Nat := 1
  all : Bool := false
  print : Bool := false
  /-- The file to which a changed line is written too. -/
  path : Option (List Char) := none

/-- A command of an editing program. -/
inductive EditCommand where
  | openBlock
  | closeBlock
  | label (name : List Char)
  | branch (name : List Char)
  /-- Branches if a substitution was made since the line was read or the last such branch, or else if
  none was made. -/
  | branchIf (made : Bool) (name : List Char)
  | append (text : List Char)
  | insert (text : List Char)
  | replace (text : List Char)
  | delete
  | deleteFirst
  | print
  | printFirst
  | printNumber
  /-- Shows all characters of the line, and its end. -/
  | list
  | next
  | nextAppended
  | hold
  | holdAppended
  | fetch
  | fetchAppended
  | exchange
  | clear
  | quit (prints : Bool) (status : Nat)
  | readFile (path : List Char)
  | writeFile (path : List Char)
  | substitute (s : Substitution)
  | substituteChars (source target : List Char)

/-- A command with the lines that it runs on. -/
structure EditStep where
  selection : EditSelection
  command : EditCommand

/-! ## Reading a program -/

/-- A program that is being read. -/
structure EditText where
  rest : List Char
  /-- The characters that have been read. -/
  read : Nat := 0
  style : Notation
  previous : Option RegularExpression := none

/-- Reads from a program. -/
abbrev EditReader := StateT EditText (Except (List Char))

namespace EditReader

/-- Complains about the program. -/
def fail {α : Type} (message : String) : EditReader α := do
  let place := (← get).read
  throw (s!"-e expression #1, char {place}: {message}").toList

/-- The next character, if there is one. -/
def next? : EditReader (Option Char) := do
  let s ← get
  match s.rest with
  | c :: rest => set { s with rest, read := s.read + 1 }; return some c
  | [] => return none

/-- Passes over characters of a kind. -/
def skipWhile (p : Char → Bool) : EditReader Unit :=
  modify fun s =>
    let n := (s.rest.takeWhile p).length
    { s with rest := s.rest.drop n, read := s.read + n }

/-- Reads characters of a kind. -/
def takeWhile (p : Char → Bool) : EditReader (List Char) := do
  let cs := (← get).rest.takeWhile p
  skipWhile p
  return cs

/-- The next character, not yet read. -/
def peek : EditReader (Option Char) := do return (← get).rest.head?

end EditReader

open EditReader

/-- Reads a text up to a delimiter. A backslash before the delimiter is taken away, unless the delimiter
would have a meaning of its own. -/
def readDelimited (delimiter : Char) (isExpression : Bool) : Nat → List Char → Bool →
    EditReader (Option (List Char))
  | 0, _, _ => return none
  | fuel + 1, read, inBrackets => do
    match ← next? with
    | none => return none
    | some c =>
      if c = '\\' then
        match ← next? with
        | none => return none
        | some d =>
          let kept :=
            if d = delimiter && d ≠ '\\' then [d]
            else if isExpression && d = 'n' && !inBrackets then ['\n']
            else if isExpression && d = 't' && !inBrackets then ['\t']
            else [c, d]
          readDelimited delimiter isExpression fuel (kept.reverse ++ read) inBrackets
      else if c = delimiter then return some read.reverse
      else if c = '\n' && isExpression then return none
      else readDelimited delimiter isExpression fuel (c :: read) inBrackets

/-- Reads a text up to a delimiter, however long the program is. -/
def delimited (delimiter : Char) (isExpression : Bool) : EditReader (Option (List Char)) := do
  readDelimited delimiter isExpression ((← get).rest.length + 1) [] false

/-- Makes an expression of its text. An empty text stands for the expression before it. -/
def expressionOf (cs : List Char) (ignoreCase : Bool) : EditReader RegularExpression := do
  let s ← get
  if cs.isEmpty then
    match s.previous with
    | some e => return e
    | none => EditReader.fail "no previous regular expression"
  else
    match RegularExpression.read { s.style with ignoreCase } cs with
    | .ok e => modify fun s => { s with previous := some e }; return e
    | .error message => EditReader.fail message

/-- Reads a number. -/
def number : EditReader Nat := do return numberIn 10 (← EditReader.takeWhile Char.isDigit)

/-- Reads an address, if one comes next. -/
def readAddress : EditReader (Option EditAddress) := do
  match ← peek with
  | some '$' => discard next?; return some .last
  | some c =>
    if c.isDigit then
      let n ← number
      if (← peek) = some '~' then
        discard next?
        return some (.every n (← number))
      return some (.line n)
    else if c = '/' || c = '\\' then
      discard next?
      let delimiter ← if c = '/' then pure '/' else do pure ((← next?).getD '/')
      match ← delimited delimiter true with
      | none => EditReader.fail "unterminated address regex"
      | some cs =>
        let ignoreCase := (← peek) = some 'I'
        if ignoreCase then discard next?
        return some (.fits (← expressionOf cs ignoreCase))
    else return none
  | none => return none

/-- Whether a character is a blank. -/
def isBlankChar (c : Char) : Bool := c = ' ' || c = '\t'

/-- Whether a character may stand between commands. -/
def isCommandSpace (c : Char) : Bool := c = ' ' || c = '\t' || c = '\n' || c = ';'

/-- Reads the lines that a command runs on. -/
def readSelection : EditReader EditSelection := do
  let first ← readAddress
  skipWhile isBlankChar
  let last ←
    if first.isSome && (← peek) = some ',' then do
      discard next?
      skipWhile isBlankChar
      if (← peek) = some '+' then do
        discard next?
        pure (some (EditEnd.lines (← number)))
      else
        match ← readAddress with
        | some a => pure (some (.at a))
        | none =>
          discard next?
          EditReader.fail "unexpected \x60,'"
    else pure none
  skipWhile isBlankChar
  let negated := (← peek) = some '!'
  if negated then do
    discard next?
    skipWhile isBlankChar
  return ⟨first, last, negated⟩

/-- The parts of a text that takes the place of a match. -/
def replacementParts : List Char → List EditPart
  | [] => []
  | '\\' :: c :: rest =>
    (if c.isDigit then .group (c.toNat - '0'.toNat)
      else
        match c with
        | 'n' => .text ['\n']
        | 't' => .text ['\t']
        | 'U' => .change .upper
        | 'L' => .change .lower
        | 'E' => .change .none
        | 'u' => .changeNext .upper
        | 'l' => .changeNext .lower
        | _ => .text [c]) :: replacementParts rest
  | '&' :: rest => .group 0 :: replacementParts rest
  | c :: rest => .text [c] :: replacementParts rest

/-- The number of groups in the text of an expression. -/
def groupCount (style : Notation) : List Char → Nat
  | [] => 0
  | '\\' :: c :: rest => (if c = '(' && !style.extended then 1 else 0) + groupCount style rest
  | c :: rest => (if c = '(' && style.extended then 1 else 0) + groupCount style rest

/-- Reads the flags of a substitution. -/
def readFlags : Nat → Substitution → Bool → EditReader (Substitution × Bool)
  | 0, s, ignoreCase => return (s, ignoreCase)
  | fuel + 1, s, ignoreCase => do
    match ← peek with
    | some 'g' => discard next?; readFlags fuel { s with all := true } ignoreCase
    | some 'p' => discard next?; readFlags fuel { s with print := true } ignoreCase
    | some 'i' | some 'I' => discard next?; readFlags fuel s true
    | some 'w' =>
      discard next?
      skipWhile (· = ' ')
      let path ← EditReader.takeWhile (· ≠ '\n')
      return ({ s with path := some path }, ignoreCase)
    | some c =>
      if c.isDigit then do
        let n ← number
        if n = 0 then EditReader.fail "number option to \x60s' command may not be zero"
        readFlags fuel { s with start := n } ignoreCase
      else if isCommandSpace c || c = '\x7d' || c = '#' then return (s, ignoreCase)
      else do
        discard next?
        EditReader.fail "unknown option to \x60s'"
    | none => return (s, ignoreCase)

/-- Reads the text of a command that adds lines. -/
def readAddedText : EditReader (List Char) := do
  skipWhile isBlankChar
  match (← get).rest with
  | '\\' :: rest =>
    let blanks := (rest.takeWhile isBlankChar).length
    if rest[blanks]? = some '\n' then
      modify fun s => { s with rest := rest.drop (blanks + 1), read := s.read + blanks + 2 }
    else modify fun s => { s with rest, read := s.read + 1 }
  | [] => EditReader.fail "expected \\ after \x60a', \x60c' or \x60i'"
  | _ => pure ()
  let rec go (fuel : Nat) (read : List Char) : EditReader (List Char) :=
    match fuel with
    | 0 => return read.reverse
    | fuel + 1 => do
      match ← next? with
      | none => return read.reverse
      | some '\n' => return read.reverse
      | some '\\' =>
        match ← next? with
        | some c => go fuel (c :: read)
        | none => return read.reverse
      | some c => go fuel (c :: read)
  return (← go ((← get).rest.length + 1) []) ++ ['\n']

/-- Characters of a list of them without the backslashes before them. -/
def plainChars : List Char → List Char
  | '\\' :: 'n' :: rest => '\n' :: plainChars rest
  | '\\' :: 't' :: rest => '\t' :: plainChars rest
  | '\\' :: c :: rest => c :: plainChars rest
  | c :: rest => c :: plainChars rest
  | [] => []

/-- Reads a command behind its address. -/
def readEditCommand : EditReader EditCommand := do
  let finish (command : EditCommand) : EditReader EditCommand := do
    skipWhile isBlankChar
    match ← peek with
    | none => return command
    | some c =>
      if isCommandSpace c || c = '\x7d' || c = '#' then return command
      else do
        discard next?
        EditReader.fail "extra characters after command"
  let name : EditReader (List Char) := do
    skipWhile isBlankChar
    EditReader.takeWhile fun c => c ≠ '\n' && c ≠ ';' && c ≠ '\x7d' && c ≠ ' '
  let path : EditReader (List Char) := do
    skipWhile isBlankChar
    EditReader.takeWhile (· ≠ '\n')
  match ← next? with
  | none => EditReader.fail "missing command"
  | some c =>
    match c with
    | '\x7b' => return .openBlock
    | '\x7d' => finish .closeBlock
    | ':' => do
      skipWhile isBlankChar
      return .label (← EditReader.takeWhile fun c => c ≠ '\n' && c ≠ ';' && c ≠ ' ')
    | 'b' => return .branch (← name)
    | 't' => return .branchIf true (← name)
    | 'T' => return .branchIf false (← name)
    | 'a' => return .append (← readAddedText)
    | 'i' => return .insert (← readAddedText)
    | 'c' => return .replace (← readAddedText)
    | 'd' => finish .delete
    | 'D' => finish .deleteFirst
    | 'p' => finish .print
    | 'P' => finish .printFirst
    | '=' => finish .printNumber
    | 'l' => finish .list
    | 'n' => finish .next
    | 'N' => finish .nextAppended
    | 'h' => finish .hold
    | 'H' => finish .holdAppended
    | 'g' => finish .fetch
    | 'G' => finish .fetchAppended
    | 'x' => finish .exchange
    | 'z' => finish .clear
    | 'q' | 'Q' => do
      skipWhile isBlankChar
      let n ← number
      finish (.quit (c = 'q') n)
    | 'r' => return .readFile (← path)
    | 'w' => return .writeFile (← path)
    | 's' => do
      let delimiter := (← next?).getD '\n'
      match ← delimited delimiter true with
      | none => EditReader.fail "unterminated \x60s' command"
      | some cs =>
        match ← delimited delimiter false with
        | none => EditReader.fail "unterminated \x60s' command"
        | some replacement =>
          let parts := replacementParts replacement
          let (s, ignoreCase) ← readFlags 16 { expression := .empty, parts } false
          let expression ← expressionOf cs ignoreCase
          let groups := groupCount (← get).style cs
          let missing := parts.findSome? fun
            | .group n => if !cs.isEmpty && groups < n then some n else none
            | _ => none
          match missing with
          | some n => EditReader.fail ("invalid reference \\" ++ toString n ++ " on \x60s' command's RHS")
          | none => finish (.substitute { s with expression })
    | 'y' => do
      let delimiter := (← next?).getD '\n'
      match ← delimited delimiter false with
      | none => EditReader.fail "unterminated \x60y' command"
      | some source =>
        match ← delimited delimiter false with
        | none => EditReader.fail "unterminated \x60y' command"
        | some target =>
          let (source, target) := (plainChars source, plainChars target)
          if source.length ≠ target.length then
            EditReader.fail "strings for \x60y' command are different lengths"
          finish (.substituteChars source target)
    | _ => EditReader.fail (String.ofList ("unknown command: \x60".toList ++ [c, '\'']))

/-- Reads the commands of a program. -/
def readEditSteps : Nat → EditReader (List EditStep)
  | 0 => return []
  | fuel + 1 => do
    skipWhile isCommandSpace
    match ← peek with
    | none => return []
    | some '#' => skipWhile (· ≠ '\n'); readEditSteps fuel
    | some _ =>
      let selection ← readSelection
      let command ← readEditCommand
      return ⟨selection, command⟩ :: (← readEditSteps fuel)

/-- The blocks that are open behind some commands. -/
def openBlocks (steps : List EditStep) : Int :=
  steps.foldl
    (fun n step =>
      match step.command with
      | .openBlock => n + 1
      | .closeBlock => n - 1
      | _ => n)
    0

/-! ## Running a program -/

/-- A line of the input, and whether it has an end. -/
structure EditLine where
  text : List Char
  ended : Bool

/-- The state of an editor. -/
structure Editor where
  /-- The lines that have not been read. -/
  input : List EditLine
  number : Nat := 0
  line : List Char := []
  ended : Bool := true
  held : List Char := []
  /-- The ranges that lines are in, with the number of the line that ends each, if that is known. -/
  active : List (Nat × Option Nat) := []
  /-- What is written behind the line. -/
  appended : List (List Char) := []
  substituted : Bool := false
  output : List (List Char) := []
  /-- What goes to files, the last first. -/
  writes : List (List Char × List Char) := []
  /-- The status, once the program is to end. -/
  ending : Option Nat := none
  quiet : Bool

namespace Editor

/-- Writes a text. -/
def put (ed : Editor) (cs : List Char) : Editor := { ed with output := cs :: ed.output }

/-- Writes a line. -/
def putLine (ed : Editor) (cs : List Char) : Editor :=
  ed.put (cs ++ if ed.ended then ['\n'] else [])

/-- Whether the current line has the address. -/
def has (ed : Editor) : EditAddress → Bool
  | .line n => ed.number = n
  | .last => ed.input.isEmpty
  | .fits e => (e.search? none ed.line).isSome
  | .every first step =>
    if step = 0 then ed.number = first else first ≤ ed.number && (ed.number - first) % step = 0

/-- Whether a command runs on the current line, and the state of its range. -/
def selects (ed : Editor) (index : Nat) (s : EditSelection) : Editor × Bool :=
  match s.first, s.last with
  | none, _ => (ed, !s.negated)
  | some a, none => (ed, ed.has a != s.negated)
  | some a, some last =>
    let others := ed.active.filter (·.1 ≠ index)
    let stop : Editor := { ed with active := others }
    match ed.active.lookup index with
    | some bound =>
      match last, bound with
      | .at (.line n), _ =>
        if ed.number ≤ n then (if ed.number = n then stop else ed, !s.negated)
        else (stop, ed.has a != s.negated)
      | .lines _, some n => (if n ≤ ed.number then stop else ed, !s.negated)
      | .lines _, none => (stop, !s.negated)
      | .at b, _ => (if ed.has b then stop else ed, !s.negated)
    | none =>
      let zero : Bool :=
        match a with
        | .line 0 => ed.number == 1
        | _ => false
      if zero then
        match last with
        | .at b => (if ed.has b then ed else { ed with active := (index, none) :: others }, !s.negated)
        | .lines _ => (ed, !s.negated)
      else if ed.has a then
        let start (bound : Option Nat) : Editor := { ed with active := (index, bound) :: others }
        match last with
        | .at (.line n) => (if n ≤ ed.number then ed else start none, !s.negated)
        | .lines n => (if n = 0 then ed else start (some (ed.number + n)), !s.negated)
        | .at _ => (start none, !s.negated)
      else (ed, s.negated)

/-- A character as it is shown in a line of which nothing is hidden. -/
def visibleChar (c : Char) : List Char :=
  match c with
  | '\\' => ['\\', '\\']
  | '\x07' => ['\\', 'a']
  | '\x08' => ['\\', 'b']
  | '\x0c' => ['\\', 'f']
  | '\n' => ['\\', 'n']
  | '\r' => ['\\', 'r']
  | '\t' => ['\\', 't']
  | '\x0b' => ['\\', 'v']
  | _ =>
    if 32 ≤ c.toNat && c.toNat < 127 then [c]
    else
      let digits := Nat.toDigits 8 c.toNat
      '\\' :: List.replicate (3 - digits.length) '0' ++ digits

/-- A line of which nothing is hidden, in pieces of less than seventy characters. -/
def visibleLine (cs : List Char) : List Char :=
  let (text, _) := cs.foldl
    (fun ((text, width) : List Char × Nat) c =>
      let shown := visibleChar c
      if 69 < width + shown.length then (text ++ ['\\', '\n'] ++ shown, shown.length)
      else (text ++ shown, width + shown.length))
    ([], 0)
  text ++ ['$', '\n']

/-- A text with changes of case carried out. -/
def cased (change once : CaseChange) (cs : List Char) : List Char :=
  let apply (c : CaseChange) (d : Char) : Char :=
    match c with
    | .none => d
    | .upper => d.toUpper
    | .lower => d.toLower
  match cs with
  | [] => []
  | d :: rest => apply (if once = .none then change else once) d :: rest.map (apply change)

/-- What takes the place of a match. -/
def replacement (found : Found) : CaseChange → CaseChange → List EditPart → List Char
  | _, _, [] => []
  | change, once, part :: rest =>
    let add (cs : List Char) : List Char :=
      cased change once cs ++ replacement found change (if cs.isEmpty then once else .none) rest
    match part with
    | .text cs => add cs
    | .group 0 => add found.text
    | .group n => add ((found.groups.lookup n).getD [])
    | .change c => replacement found c .none rest
    | .changeNext c => replacement found change c rest

/-- Replaces matches, counted from the given number. -/
def substituteFrom (s : Substitution) : Nat → Nat → Option Char → List Char → List Char × Bool
  | 0, _, _, cs => (cs, false)
  | fuel + 1, count, before, cs =>
    match s.expression.search? before cs with
    | none => (cs, false)
    | some found =>
      let isChosen := count = s.start || (s.all && s.start ≤ count)
      let shown := if isChosen then replacement found .none .none s.parts else found.text
      let go (kept rest : List Char) (before : Option Char) : List Char × Bool :=
        if isChosen && !s.all then (kept ++ rest, true)
        else
          let (text, made) := substituteFrom s fuel (count + 1) before rest
          (kept ++ text, made || isChosen)
      match found.text, found.rest with
      | [], c :: rest => go (found.skipped ++ shown ++ [c]) rest (some c)
      | [], [] => (found.skipped ++ shown, isChosen)
      | text, rest =>
        -- An empty match does not follow another match at once.
        let next := s.expression.search? text.getLast? rest
        match next, rest with
        | some ⟨[], [], _, _⟩, c :: more =>
          go (found.skipped ++ shown ++ (if isChosen && !s.all then [] else [c]))
            (if isChosen && !s.all then rest else more) (some c)
        | some ⟨[], [], _, _⟩, [] => (found.skipped ++ shown, isChosen)
        | _, _ => go (found.skipped ++ shown) rest text.getLast?

/-- Ends the work on a line: it is written unless the editor is quiet, and what was appended behind it. -/
def finishLine (ed : Editor) (prints : Bool) : Editor :=
  let ed := if prints && !ed.quiet then ed.putLine ed.line else ed
  let ed := ed.appended.foldl (fun ed text => ed.put text) ed
  { ed with appended := [] }

/-- Reads the next line. -/
def readNext (ed : Editor) (line : List EditLine) (joined : Bool) : Editor :=
  match line with
  | next :: rest =>
    { ed with
      input := rest
      number := ed.number + 1
      line := if joined then ed.line ++ '\n' :: next.text else next.text
      ended := next.ended }
  | [] => ed

/-- How the work on a line goes on behind a command. -/
inductive EditFlow where
  | on
  /-- At the step with the index. -/
  | to (index : Nat)
  /-- With the next line, the current one being written or not. -/
  | cycle (prints : Bool)
  /-- With the line as it is, without reading another one. -/
  | again

/-- The step behind the end of a block, or behind a label. -/
def blockEnd (steps : List EditStep) : Nat → Nat → Nat → Nat
  | 0, index, _ => index
  | fuel + 1, index, depth =>
    match (steps[index]?).map EditStep.command with
    | some .openBlock => blockEnd steps fuel (index + 1) (depth + 1)
    | some .closeBlock => if depth ≤ 1 then index + 1 else blockEnd steps fuel (index + 1) (depth - 1)
    | _ => blockEnd steps fuel (index + 1) depth

/-- The place of a label. Without a name it is the end. -/
def labelPlace (steps : List EditStep) (name : List Char) : Nat :=
  if name.isEmpty then steps.length
  else
    (steps.findIdx? fun step =>
      match step.command with
      | .label found => found = name
      | _ => false).getD steps.length

/-- Writes the line to a file. -/
def writeTo (ed : Editor) (path : List Char) : Editor :=
  let line := ed.line ++ ['\n']
  if path = "/dev/stdout".toList then ed.put line else { ed with writes := (path, line) :: ed.writes }

/-- Runs one command. -/
def execute (steps : List EditStep) (contents : List (List Char × List Char)) (index : Nat)
    (s : EditSelection) (ed : Editor) : EditCommand → Editor × EditFlow
  | .openBlock | .closeBlock | .label _ => (ed, .on)
  | .branch name => (ed, .to (labelPlace steps name))
  | .branchIf made name =>
    if ed.substituted = made then ({ ed with substituted := false }, .to (labelPlace steps name))
    else ({ ed with substituted := false }, .on)
  | .append text => ({ ed with appended := ed.appended ++ [text] }, .on)
  | .insert text => (ed.put text, .on)
  | .replace text =>
    let inside := s.last.isSome && !s.negated && ed.active.any (·.1 = index)
    (if inside then ed else ed.put text, .cycle false)
  | .delete => (ed, .cycle false)
  | .deleteFirst =>
    if ed.line.contains '\n' then
      ({ ed with line := (ed.line.dropWhile (· ≠ '\n')).drop 1 }, .again)
    else (ed, .cycle false)
  | .print => (ed.putLine ed.line, .on)
  | .printFirst => (ed.put (ed.line.takeWhile (· ≠ '\n') ++ ['\n']), .on)
  | .list => (ed.put (visibleLine ed.line), .on)
  | .printNumber => (ed.put ((toString ed.number).toList ++ ['\n']), .on)
  | .next =>
    if ed.input.isEmpty then ({ ed with ending := some 0 }, .cycle true)
    else
      let ed := ed.finishLine true
      (ed.readNext ed.input false, .on)
  | .nextAppended =>
    if ed.input.isEmpty then ({ ed with ending := some 0 }, .cycle true)
    else
      let ed := ed.appended.foldl (fun ed text => ed.put text) ed
      ({ ed with appended := [] }.readNext ed.input true, .on)
  | .hold => ({ ed with held := ed.line }, .on)
  | .holdAppended => ({ ed with held := ed.held ++ '\n' :: ed.line }, .on)
  | .fetch => ({ ed with line := ed.held }, .on)
  | .fetchAppended => ({ ed with line := ed.line ++ '\n' :: ed.held }, .on)
  | .exchange => ({ ed with line := ed.held, held := ed.line }, .on)
  | .clear => ({ ed with line := [] }, .on)
  | .quit prints status => ({ ed with ending := some status }, .cycle prints)
  | .readFile path => ({ ed with appended := ed.appended ++ [(contents.lookup path).getD []] }, .on)
  | .writeFile path => (ed.writeTo path, .on)
  | .substitute sub =>
    let (text, made) := substituteFrom sub (ed.line.length + 2) 1 none ed.line
    if !made then (ed, .on)
    else
      let ed := { ed with line := text, substituted := true }
      let ed := if sub.print then ed.putLine text else ed
      match sub.path with
      | some path => (ed.writeTo path, .on)
      | none => (ed, .on)
  | .substituteChars source target =>
    let table := source.zip target
    ({ ed with line := ed.line.map fun c => (table.lookup c).getD c }, .on)

/-- Runs the commands on the current line from a step on. -/
def runSteps (steps : List EditStep) (contents : List (List Char × List Char)) :
    Nat → Nat → Editor → Editor × EditFlow
  | 0, _, ed => ({ ed with ending := some 1 }, .cycle false)
  | fuel + 1, index, ed =>
    match steps[index]? with
    | none => (ed, .cycle true)
    | some step =>
      let (ed, chosen) := ed.selects index step.selection
      if !chosen then
        match step.command with
        | .openBlock =>
          runSteps steps contents fuel (blockEnd steps (steps.length - index) index 0) ed
        | _ => runSteps steps contents fuel (index + 1) ed
      else
        match ed.execute steps contents index step.selection step.command with
        | (ed, .on) => runSteps steps contents fuel (index + 1) ed
        | (ed, .to next) => runSteps steps contents fuel next ed
        | result => result

/-- No line is worked on for more steps. -/
def stepLimit : Nat := 100000

/-- Runs the commands on one line after another. `reads` tells whether a line is read first. -/
def runLines (steps : List EditStep) (contents : List (List Char × List Char)) :
    Nat → Bool → Editor → Editor
  | 0, _, ed => ed
  | fuel + 1, reads, ed =>
    if reads && ed.input.isEmpty then ed
    else
      let ed := if reads then { ed.readNext ed.input false with substituted := false } else ed
      match runSteps steps contents stepLimit 0 ed with
      | (ed, .again) => runLines steps contents fuel false (ed.finishLine false)
      | (ed, flow) =>
        let prints := match flow with
          | .cycle prints => prints
          | _ => true
        let ed := ed.finishLine prints
        if ed.ending.isSome then ed else runLines steps contents fuel true ed

end Editor

/-- The lines of a content, with the ends that they have. -/
def editLines (cs : List Char) : List EditLine :=
  (linesWithEnds cs).map fun line =>
    if line.getLast? = some '\n' then ⟨line.dropLast, true⟩ else ⟨line, false⟩

/-- The files that commands read. -/
def filesRead (steps : List EditStep) : List (List Char) :=
  steps.filterMap fun step =>
    match step.command with
    | .readFile path => some path
    | _ => none

/-- Edits lines as a program says. -/
def sed : Program := do
  let inPlace := (← get).arguments.any fun word =>
    "-i".toList.isPrefixOf word || "--in-place".toList.isPrefixOf word
  modify fun j => { j with arguments := j.arguments.filter fun word =>
    !("-i".toList.isPrefixOf word || "--in-place".toList.isPrefixOf word) }
  let (given, operands) ← switches 1
    [⟨'n', "quiet", false⟩, ⟨'e', "expression", true⟩, ⟨'f', "file", true⟩, ⟨'E', "regexp-extended", false⟩,
     ⟨'r', "", false⟩, ⟨'s', "separate", false⟩, ⟨'u', "unbuffered", false⟩, ⟨'z', "null-data", false⟩]
  let chunks ← (given.filter fun g => g.1 = 'e' || g.1 = 'f').mapM fun (letter, value) => do
    if letter = 'e' then return value
    else
      match ← readOperand value with
      | .ok content => return if content.getLast? = some '\n' then content.dropLast else content
      | .error fault => fail 1 ("couldn't open file ".toList ++ value ++ ": ".toList ++ reason fault)
  let (text, operands) ←
    match chunks, operands with
    | _ :: _, _ => pure (['\n'].intercalate chunks, operands)
    | [], text :: operands => pure (text, operands)
    | [], [] =>
      err "Usage: sed [OPTION]... \x7bscript-only-if-no-other-script\x7d [input-file]...\n\n".toList
      throw 1
  let style : Notation := ⟨has given 'E' || has given 'r', false, true⟩
  let quiet := has given 'n' || ['#', 'n', '\n'].isPrefixOf (text ++ ['\n'])
  match (readEditSteps (text.length + 1)).run { rest := text, style } with
  | .error message => fail 1 message
  | .ok (steps, _) =>
    let unclosed := openBlocks steps
    if 0 < unclosed then fail 1 "-e expression #1, char 0: unmatched \x60\x7b'".toList
    if unclosed < 0 then
      fail 1 ("-e expression #1, char ".toList ++ (toString text.length).toList ++
        ": unexpected \x60\x7d'".toList)
    let contents ← (filesRead steps).mapM fun path => do
      return (path, (← readFile path).toOption.getD [])
    let separate := inPlace || has given 's'
    let inputs ← (orInput operands).filterMapM fun operand => do
      match ← readOperand operand with
      | .ok content => return some (operand, editLines content)
      | .error .isDirectory =>
        if !inPlace then fail 4 ("read error on ".toList ++ operand ++ ": Is a directory".toList)
        warn ("couldn't edit ".toList ++ operand ++ ": not a regular file".toList)
        mark 4
        return none
      | .error fault =>
        warn ("can't read ".toList ++ operand ++ ": ".toList ++ reason fault)
        mark 2
        return none
    let joined (lines : List EditLine) : List EditLine :=
      lines.dropLast.map (fun line => { line with ended := true }) ++ lines.drop (lines.length - 1)
    let groups :=
      if separate then inputs else [([], joined (inputs.flatMap (·.2)))]
    let ending ← groups.foldlM
      (fun (ending : Option Nat) (path, input) => do
        if ending.isSome then return ending
        let ed := Editor.runLines steps contents (2 * input.length + 100000) true { input, quiet }
        let output := ed.output.reverse.flatten
        if inPlace then discard (writeFile path output) else out output
        let targets := (ed.writes.map (·.1)).eraseDups
        targets.forM fun target =>
          discard (writeFile target ((ed.writes.reverse.filter (·.1 = target)).flatMap (·.2)))
        return ed.ending)
      none
    match ending with
    | some status => throw (max status (← get).status)
    | none => return

end KeywordIndex.Shell.Utility
