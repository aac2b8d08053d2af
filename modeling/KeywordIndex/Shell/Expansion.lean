import KeywordIndex.Shell.Field
import KeywordIndex.Shell.Machine

namespace KeywordIndex.Shell

/-!
# Expansion

Before a command is run its words are expanded: values take the place of parameters, what commands
write the place of the commands, and names of files the place of patterns.
-/

/-- How a word is expanded. -/
structure Manner where
  /-- The word may become several fields, or none. -/
  apart : Bool
  /-- The word stands in for the value of a parameter, and is split like one. -/
  asValue : Bool := false
  /-- A tilde may also stand behind a colon. -/
  afterColons : Bool := false

/-- What expansions and commands need of each other. -/
structure Evaluator where
  /-- Runs a command. Its failure ends no script if it is `tested`. -/
  run : (tested : Bool) → Command → Session → Session
  expand : Manner → List Piece → Session → Session × List Atom

/-- The arguments as one text. -/
def joinedArguments (s : Session) : List Char := s.joint.intercalate s.arguments

/-- All arguments, joined or apart. -/
def expandArguments (s : Session) (m : Manner) (name : List Char) (quoted : Bool) : List Atom :=
  if m.apart && (name = ['@'] || !quoted) then
    let start : List Atom := if quoted then [.quote] else []
    [Atom.boundary].intercalate (s.arguments.map fun a => start ++ Atom.ofValue quoted (!quoted) a)
  else Atom.ofValue quoted (m.apart && !quoted) (joinedArguments s)

/-- The place of the home directory. -/
def homeOf (s : Session) (user : List Char) : Option (List Char) :=
  if user.isEmpty then s.value? "HOME".toList
  else if user = "root".toList then some "/root".toList
  else none

/-- Expands the tildes in a text without quotes. -/
def expandTildes (s : Session) (m : Manner) (more : Bool) : (atStart : Bool) → Nat → List Char → List Atom
  | _, 0, _ => []
  | _, _, [] => []
  | atStart, fuel + 1, c :: cs =>
    let plain :=
      .char c false (m.asValue && m.apart) ::
        expandTildes s m more (m.afterColons && c == ':') fuel cs
    if atStart && c == '~' then
      let user := cs.takeWhile fun c => c ≠ '/' && !(m.afterColons && c == ':')
      let rest := cs.drop user.length
      if rest.isEmpty && more then plain
      else
        match homeOf s user with
        | some home => Atom.ofValue true false home ++ expandTildes s m more false fuel rest
        | none => plain
    else plain

/-- Expands pieces to a text. -/
def expandText (inner : Evaluator) (pieces : List Piece) (s : Session) : Session × List Char :=
  let (s, atoms) := inner.expand { apart := false } pieces s
  (s, textOfAtoms atoms)

/-- Expands pieces to a pattern. -/
def expandPattern (inner : Evaluator) (pieces : List Piece) (s : Session) : Session × Pattern :=
  let (s, atoms) := inner.expand { apart := false } pieces s
  (s, patternOfAtoms atoms)

/-- Complains that a parameter has no value. -/
def reportMissing (s : Session) (name reason : List Char) : Session :=
  s.abort (name ++ ": ".toList ++ reason)

/-- Expands a parameter in the given use. -/
def expandParameter (inner : Evaluator) (m : Manner) (name : List Char) (use : Use) (quoted : Bool)
    (s : Session) : Session × List Atom :=
  let all := name = ['@'] || name = ['*']
  let value? := if all then
      if s.arguments.isEmpty then none else some (joinedArguments s)
    else s.parameter? name
  let splits := m.apart && !quoted
  let value : List Atom :=
    if all then expandArguments s m name quoted
    else Atom.ofValue quoted splits (value?.getD [])
  let checked (result : Session × List Atom) : Session × List Atom :=
    if value?.isNone && s.isSet .noUnset && !all then
      (reportMissing s name "parameter not set".toList, [])
    else result
  match use with
  | .value => checked (s, value)
  | .length =>
    checked (s, Atom.ofValue quoted splits (toString (value?.getD []).length).toList)
  | .invalid => (s.abort "Bad substitution".toList, [])
  | .trim t pattern =>
    checked <|
      let (s, pattern) := expandPattern inner pattern s
      let cut := pattern.cut t.fromEnd t.longest
      if all && m.apart then
        (s, expandArguments { s with arguments := s.arguments.map cut } m name quoted)
      else (s, Atom.ofValue quoted splits (cut (value?.getD [])))
  | .missing case orEmpty word =>
    let isMissing := value?.isNone || (orEmpty && value? == some [])
    let inPlace : Session × List Atom := inner.expand { m with asValue := !quoted } word s
    match case with
    | .kept => if isMissing then (s, []) else inPlace
    | .replaced => if isMissing then inPlace else (s, value)
    | .assigned =>
      if !isMissing then (s, value)
      else
        let (s, text) := expandText inner word s
        if !s.isGoing then (s, [])
        else if isGoodName name then (s.assign name text, Atom.ofValue quoted splits text)
        else (s.abort (name ++ ": bad variable name".toList), [])
    | .reported =>
      if !isMissing then (s, value)
      else
        let (s, text) := expandText inner word s
        if !s.isGoing then (s, [])
        else
          let reason :=
            if !word.isEmpty then text
            else if orEmpty then "parameter not set or null".toList
            else "parameter not set".toList
          (reportMissing s name reason, [])

/-- What a command writes, without the line ends behind it. -/
def outputOf (inner : Evaluator) (command : Option Command) (s : Session) : Session × List Char :=
  match command with
  | none => ({ s with outputStatus := 0 }, [])
  | some command =>
    let (number, world) := s.world.addChannel (.pipe [] [])
    let inside : Session :=
      { s with
        world
        descriptors := (1, number) :: s.descriptors.filter (·.1 ≠ 1)
        traps := s.traps.filter (·.2.isEmpty) }
    let after := inner.run false (.subshell s.line (some command) []) inside
    let text := (after.world.waiting number).filter (· ≠ '\x00')
    let kept := (text.reverse.dropWhile (· == '\n')).reverse
    ({ s with world := after.world, outputStatus := after.status }, kept)

/-- Expands a calculation. -/
def expandCalculation (inner : Evaluator) (expression : List Piece) (s : Session) : Session × List Char :=
  let (s, text) := expandText inner expression s
  if !s.isGoing then (s, [])
  else
    match calculate text s.parameter? with
    | .ok (result, assigned) =>
      let s := assigned.reverse.foldl (fun s (name, n) => s.assign name (toString n).toList) s
      (s, (toString result).toList)
    | .error fault => (s.abort (fault.message text), [])

/-- Expands a piece. `first` is for the first piece of a word, and `more` if others follow. -/
def expandPiece (inner : Evaluator) (m : Manner) (first more : Bool) (piece : Piece) (s : Session) :
    Session × List Atom :=
  match piece with
  | .text cs quoted =>
    if quoted then (s, Atom.ofValue true false cs)
    else (s, expandTildes s m more first cs.length cs)
  | .quote => (s, [.quote])
  | .parameter name use quoted => expandParameter inner m name use quoted s
  | .output command quoted =>
    let (s, text) := outputOf inner command s
    (s, Atom.ofValue quoted (m.apart && !quoted) text)
  | .calculation expression quoted =>
    let (s, text) := expandCalculation inner expression s
    (s, Atom.ofValue quoted (m.apart && !quoted) text)

/-- Expands pieces one after another. Quotes around nothing but all arguments are no mark of a field. -/
def expandPieces (inner : Evaluator) (m : Manner) :
    (first : Bool) → List Piece → Session → Session × List Atom
  | _, [], s => (s, [])
  | _, .quote :: .parameter ['@'] .value true :: .quote :: rest, s =>
    if !s.isGoing then (s, [])
    else
      let (s, others) := expandPieces inner m false rest s
      (s, expandArguments s m ['@'] true ++ others)
  | first, piece :: rest, s =>
    if !s.isGoing then (s, [])
    else
      let (s, atoms) := expandPiece inner m first (!rest.isEmpty) piece s
      let (s, others) := expandPieces inner m false rest s
      (s, atoms ++ others)

/-- The parts of a pattern of names between slashes. -/
def namePatterns (field : Pattern) : List Pattern :=
  field.foldr
    (fun p parts =>
      match parts with
      | [] => [[p]]
      | part :: others => if p.char == '/' then [] :: parts else (p :: part) :: others)
    [[]]

/-- The names of the entries of a directory that a pattern matches. Names with a leading dot are matched
by patterns with one only. -/
def matchingNames (s : Session) (directory : List Char) (pattern : Pattern) : List (List Char) :=
  let path := s.pathOf (if directory.isEmpty then ['.'] else directory)
  let names := ((s.world.disk.list path).toOption.getD []).map octetsOf
  let dotted := (pattern.head?.map (·.char)) == some '.'
  (['.'] :: ['.', '.'] :: names).filter fun name =>
    (dotted || name.head? ≠ some '.') && pattern.matches name

/-- The paths that begin with one of the given texts and go on as the patterns say. -/
def matchingPaths (s : Session) : List Pattern → List (List Char) → List (List Char)
  | [], starts => starts
  | part :: rest, starts =>
    let ends := if rest.isEmpty then [] else ['/']
    let next := starts.flatMap fun start =>
      if part.isProper then (matchingNames s start part).map fun name => start ++ name ++ ends
      else [start ++ textOfField part ++ ends]
    matchingPaths s rest next

/-- The names of files that take the place of a field. A pattern that matches none stays as it is. -/
def expandNames (s : Session) (field : Pattern) : List (List Char) :=
  let plain := [textOfField field]
  if s.isSet .noPatterns || !field.isProper then plain
  else
    let found := (matchingPaths s (namePatterns field) [[]]).filter fun path =>
      (s.world.disk.find (s.pathOf path)).toOption.isSome
    if found.isEmpty then plain else found.mergeSort precedes

/-- Expands a word to the fields that it becomes. -/
def expandWord (inner : Evaluator) (word : Word) (s : Session) : Session × List (List Char) :=
  let (s, atoms) := inner.expand { apart := true } word s
  (s, (fieldsOfAtoms s.separators atoms).flatMap (expandNames s))

/-- Expands words. -/
def expandWords (inner : Evaluator) : List Word → Session → Session × List (List Char)
  | [], s => (s, [])
  | word :: rest, s =>
    if !s.isGoing then (s, [])
    else
      let (s, fields) := expandWord inner word s
      let (s, others) := expandWords inner rest s
      (s, fields ++ others)

end KeywordIndex.Shell
