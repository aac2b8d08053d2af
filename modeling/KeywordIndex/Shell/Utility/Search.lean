import KeywordIndex.Shell.Job
import KeywordIndex.Shell.RegularExpression

namespace KeywordIndex.Shell.Utility

open KeywordIndex.Shell.Job Text

/-!
# Programs that search

`grep` finds lines with a match of a regular expression, and `find` entries of directories by what they
are.
-/

/-- The expression that matches what one of several does. -/
def anyOfExpressions : List RegularExpression → RegularExpression
  | [] => .char fun _ => false
  | [e] => e
  | e :: rest => .alternative e (anyOfExpressions rest)

/-- An expression that matches whole words, or whole lines. -/
def withinEdges (words whole : Bool) (e : RegularExpression) : RegularExpression :=
  if whole then .sequence .textStart (.sequence e .textEnd)
  else if words then
    .sequence (.between fun before _ => !before.any isWordChar)
      (.sequence e (.between fun _ after => !after.any isWordChar))
  else e

/-- All matches in a text that are not empty, up to the given number. -/
def matchesIn (e : RegularExpression) : Nat → Option Char → List Char → List (List Char)
  | 0, _, _ => []
  | fuel + 1, before, cs =>
    match e.search? before cs with
    | none => []
    | some found =>
      match found.text, found.rest with
      | [], [] => []
      | [], c :: rest => matchesIn e fuel (some c) rest
      | text, rest => text :: matchesIn e fuel text.getLast? rest

/-- The options of `grep`. -/
def grepSwitches : List Switch :=
  [⟨'i', "ignore-case", false⟩, ⟨'v', "invert-match", false⟩, ⟨'c', "count", false⟩,
   ⟨'n', "line-number", false⟩, ⟨'l', "files-with-matches", false⟩, ⟨'L', "files-without-match", false⟩,
   ⟨'q', "quiet", false⟩, ⟨'s', "no-messages", false⟩, ⟨'o', "only-matching", false⟩,
   ⟨'w', "word-regexp", false⟩, ⟨'x', "line-regexp", false⟩, ⟨'E', "extended-regexp", false⟩,
   ⟨'F', "fixed-strings", false⟩, ⟨'G', "basic-regexp", false⟩, ⟨'e', "regexp", true⟩,
   ⟨'f', "file", true⟩, ⟨'h', "no-filename", false⟩, ⟨'H', "with-filename", false⟩,
   ⟨'m', "max-count", true⟩, ⟨'r', "recursive", false⟩, ⟨'R', "dereference-recursive", false⟩,
   ⟨'A', "after-context", true⟩, ⟨'B', "before-context", true⟩, ⟨'C', "context", true⟩,
   ⟨'a', "text", false⟩, ⟨'y', "", false⟩, ⟨'b', "byte-offset", false⟩]

/-- Writes the lines that match an expression. -/
def grep (extended fixed : Bool) : Program := do
  let colors := "--color".toList
  modify fun j => { j with arguments := j.arguments.filter (!colors.isPrefixOf ·) }
  let (given, operands) ← switches 2 grepSwitches
  let has := has given
  let notations := (given.map (·.1)).filter fun c => c = 'E' || c = 'F' || c = 'G'
  let (extended, fixed) :=
    match notations.getLast? with
    | some c => (c == 'E', c == 'F')
    | none => (extended, fixed)
  let fromFiles ← (given.filter (·.1 = 'f')).mapM fun (_, path) => do
    match ← readOperand path with
    | .ok content => return Job.lines content
    | .error fault => fail 2 (path ++ ": ".toList ++ reason fault)
  let written := (given.filter (·.1 = 'e')).map (·.2)
  let named := !written.isEmpty || has 'f'
  let (texts, operands) ←
    match named, operands with
    | true, _ => pure (written.flatMap (split '\n') ++ fromFiles.flatten, operands)
    | false, text :: operands => pure (split '\n' text, operands)
    | false, [] =>
      err ("Usage: ".toList ++ (← get).name ++ " [OPTION]... PATTERNS [FILE]...\nTry '".toList ++
        (← get).name ++ " --help' for more information.\n".toList)
      throw 2
  let style : Notation := ⟨extended, has 'i' || has 'y', false⟩
  let expressions ← texts.mapM fun text => do
    if fixed then return RegularExpression.ofText style text
    else
      match RegularExpression.read style text with
      | .ok e => return e
      | .error message => fail 2 message.toList
  let e := withinEdges (has 'w') (has 'x') (anyOfExpressions expressions)
  let number (letter : Char) : Option Nat := (last? given letter).bind decimal?
  let most := number 'm'
  let after := ((number 'A').or (number 'C')).getD 0
  let before := ((number 'B').or (number 'C')).getD 0
  let deep := has 'r' || has 'R'
  let startPaths := if operands.isEmpty then [if deep then ['.'] else ['-']] else operands
  let rec below (fuel : Nat) (path : List Char) : ProgramStep (List (List Char)) :=
    match fuel with
    | 0 => return []
    | fuel + 1 => do
      match ← find path with
      | .ok (place, .directory) =>
        let names := ((← get).disk.children place).map octetsOf
        return (← names.mapM fun name => below fuel (path ++ '/' :: name)).flatten
      | _ => return [path]
  let paths ← if deep then do pure (← startPaths.mapM (below 64)).flatten else pure startPaths
  let titled := (paths.length > 1 || deep || has 'H') && !has 'h'
  let (any, faulty) ← paths.foldlM
    (fun (any, faulty) path => do
      match ← readOperand path with
      | .error fault =>
        if !has 's' then warn (path ++ ": ".toList ++ reason fault)
        return (any, true)
      | .ok content =>
        let name := if path = ['-'] then "(standard input)".toList else path
        let lines := (Job.lines content).zipIdx
        let hits := lines.filter fun (line, _) => (e.search? none line).isSome != has 'v'
        let hits := (most.map hits.take).getD hits
        let label (mark : Char) (n : Nat) : List Char :=
          (if titled then name ++ [mark] else []) ++
            (if has 'n' then (toString (n + 1)).toList ++ [mark] else [])
        if has 'q' then
          if !hits.isEmpty then throw 0
        else if has 'l' then
          if !hits.isEmpty then out (name ++ ['\n'])
        else if has 'L' then
          if hits.isEmpty then out (name ++ ['\n'])
        else if has 'c' then
          out ((if titled then name ++ [':'] else []) ++ (toString hits.length).toList ++ ['\n'])
        else if has 'o' then
          if !has 'v' then
            hits.forM fun (line, n) =>
              (matchesIn e (line.length + 1) none line).forM fun text => out (label ':' n ++ text ++ ['\n'])
        else if after = 0 && before = 0 then
          hits.forM fun (line, n) => out (label ':' n ++ line ++ ['\n'])
        else
          let isHit (n : Nat) : Bool := hits.any (·.2 = n)
          let shown := lines.filter fun (_, n) => hits.any fun (_, h) => n ≤ h + after && h ≤ n + before
          let _ ← shown.foldlM
            (fun (last : Option Nat) (line, n) => do
              if last.any (· + 1 < n) then out "--\n".toList
              out (label (if isHit n then ':' else '-') n ++ line ++ ['\n'])
              return some n)
            none
        return (any || !hits.isEmpty, faulty))
    (false, false)
  throw (if faulty then 2 else if any then 0 else 1)

/-- A condition on an entry that `find` looks at. -/
inductive FindTest where
  | name (pattern : Pattern) (ignoreCase : Bool)
  | path (pattern : Pattern)
  | type (letter : Char)
  | isEmpty
  | not (t : FindTest)

/-- A pattern whose characters are not quoted. -/
def bareMask (cs : List Char) : Pattern := cs.map fun c => ⟨c, false⟩

/-- Whether a condition holds for what is at a path. -/
def FindTest.holds (path : List Char) (node : DiskNode) (isBare : Bool) : FindTest → Bool
  | .name pattern ignoreCase =>
    let name := shortName path
    if ignoreCase then
      let small : Pattern := pattern.map fun p => { p with char := p.char.toLower }
      small.matches (name.map Char.toLower)
    else pattern.matches name
  | .path pattern => pattern.matches path
  | .type letter =>
    match node with
    | .directory => letter = 'd'
    | .sink => letter = 'c'
    | _ => letter = 'f'
  | .isEmpty =>
    match node with
    | .directory => isBare
    | .file content _ => content.isEmpty
    | _ => false
  | .not t => !t.holds path node isBare

/-- What `find` is asked for. -/
structure FindRequest where
  tests : List FindTest := []
  least : Nat := 0
  most : Option Nat := none
  deletes : Bool := false
  zero : Bool := false

/-- Reads the expression of `find`. -/
def readFindRequest : Nat → List (List Char) → FindRequest → ProgramStep FindRequest
  | 0, _, r => return r
  | _ + 1, [], r => return r
  | fuel + 1, word :: rest, r => do
    let test (t : FindTest) (rest : List (List Char)) : ProgramStep FindRequest :=
      readFindRequest fuel rest { r with tests := r.tests ++ [t] }
    let missing {α : Type} : ProgramStep α := fail 1 ("missing argument to \x60".toList ++ word ++ ['\''])
    match String.ofList word, rest with
    | "-name", p :: rest => test (.name (bareMask p) false) rest
    | "-iname", p :: rest => test (.name (bareMask p) true) rest
    | "-path", p :: rest => test (.path (bareMask p)) rest
    | "-type", [c] :: rest => test (.type c) rest
    | "-empty", rest => test .isEmpty rest
    | "-maxdepth", n :: rest => readFindRequest fuel rest { r with most := decimal? n }
    | "-mindepth", n :: rest => readFindRequest fuel rest { r with least := (decimal? n).getD 0 }
    | "-print", rest => readFindRequest fuel rest r
    | "-print0", rest => readFindRequest fuel rest { r with zero := true }
    | "-delete", rest => readFindRequest fuel rest { r with deletes := true }
    | "!", rest | "-not", rest => do
      let others ← readFindRequest fuel rest {}
      match others.tests with
      | t :: tests =>
        return { others with
          tests := r.tests ++ .not t :: tests
          least := max r.least others.least
          most := others.most.or r.most }
      | [] => return others
    | "-name", [] | "-iname", [] | "-path", [] | "-type", [] | "-maxdepth", [] | "-mindepth", [] => missing
    | _, _ => fail 1 ("unknown predicate \x60".toList ++ word ++ ['\''])

/-- Writes the paths of entries of directories. -/
def find : Program := do
  let arguments := (← get).arguments
  let isStart (word : List Char) : Bool :=
    word.head? ≠ some '-' && word ≠ ['!'] && word ≠ ['(']
  let starts := arguments.takeWhile isStart
  let request ← readFindRequest (arguments.length + 1) (arguments.drop starts.length) {}
  let rec visit (fuel level : Nat) (path : List Char) : ProgramStep Unit :=
    match fuel with
    | 0 => return
    | fuel + 1 => do
      match ← Job.find path with
      | .error fault =>
        warn (quoted path ++ ": ".toList ++ reason fault)
        mark 1
      | .ok (place, node) =>
        let names := ((← get).disk.children place).map octetsOf
        let isBare := names.isEmpty
        let inside : ProgramStep Unit :=
          if node = .directory && request.most.all (level < ·) then
            names.forM fun name =>
              visit fuel (level + 1) (path ++ (if path.getLast? = some '/' then [] else ['/']) ++ name)
          else return
        let chosen := request.least ≤ level && request.tests.all (·.holds path node isBare)
        if request.deletes then
          inside
          if chosen then discard (change fun disk => .ok (disk.remove place))
        else
          if chosen then out (path ++ [if request.zero then '\x00' else '\n'])
          inside
  (if starts.isEmpty then [['.']] else starts).forM (visit 64 0)

end KeywordIndex.Shell.Utility
