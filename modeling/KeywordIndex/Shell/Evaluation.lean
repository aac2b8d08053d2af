import KeywordIndex.Shell.Launching

namespace KeywordIndex.Shell

open Text

/-!
# Running commands

Commands are run one after another, and each gives the script as it is behind it.
-/

namespace Session

/-- No more functions run inside each other. -/
def functionLimit : Nat := 1000

/-- Calls a function. -/
def call (inner : Evaluator) (tested : Bool) (s : Session) (body : Command)
    (arguments : List (List Char)) : Session :=
  if functionLimit ≤ s.functionDepth then
    s.abort s!"Maximum function recursion depth ({functionLimit}) reached".toList
  else
  let after := inner.run tested body
    { s with arguments, hidden := [], functionDepth := s.functionDepth + 1, loops := 0 }
  let restored := after.hidden.foldl
    (fun s (name, old) =>
      match old with
      | some b => s.bind b
      | none => s.unbind name)
    after
  { restored with
    arguments := s.arguments
    hidden := s.hidden
    functionDepth := s.functionDepth
    loops := s.loops
    flow := if after.flow = .returning then .going else after.flow }

/-- Runs the commands of a file in the script itself. -/
def runSource (inner : Evaluator) (tested : Bool) (s : Session) (arguments : List (List Char)) : Session :=
  let arguments := if arguments.head? = some ['-', '-'] then arguments.drop 1 else arguments
  match arguments with
  | [] => s.finish 0
  | file :: _ =>
    let candidates :=
      if file.contains '/' then [file] else s.searchPath.map fun directory => directory ++ '/' :: file
    let found := candidates.filterMap fun path =>
      ((s.world.disk.read (s.pathOf path)).toOption).map fun content => (path, content)
    match found, candidates with
    | (path, content) :: _, _ =>
      let s := runText inner tested 1 (octetsOfBytes content) { s with commandName := path }
      if s.flow = .returning then { s with flow := .going } else s
    | [], [path] =>
      match s.world.disk.read (s.pathOf path) with
      | .error fault =>
        if file.contains '/' then
          s.abort ("cannot open ".toList ++ file ++ ": ".toList ++ openReason false fault)
        else s.abort (file ++ ": not found".toList)
      | .ok _ => s
    | [], _ => s.abort (file ++ ": not found".toList)

/-- Shows the words of a command before it is run. -/
def traceWords (s : Session) (words : List (List Char)) : Session :=
  if s.isSet .trace then
    s.write 2 ((s.value? "PS4".toList).getD [] ++ [' '].intercalate words ++ ['\n'])
  else s

/-- An assignment before a command, as it is shown, and what the name stood for before it. -/
structure Assigned where
  shown : List Char
  name : List Char
  old : Option Binding

/-- Expands the assignments before a command and carries them out. -/
def assignAll (inner : Evaluator) (exported : Bool) :
    List (List Char × Word) → Session → Session × List Assigned
  | [], s => (s, [])
  | (name, word) :: rest, s =>
    let (s, atoms) := inner.expand { apart := false, afterColons := true } word s
    if !s.isGoing then (s, [])
    else
      let value := textOfAtoms atoms
      let old := s.binding? name
      let s := s.assign name value
      if !s.isGoing then (s, [])
      else
        let s :=
          if exported then
            match s.binding? name with
            | some b => s.bind { b with exported := true }
            | none => s
          else s
        let (s, others) := assignAll inner exported rest s
        (s, ⟨name ++ '=' :: value, name, old⟩ :: others)

/-- Puts back what assignments before a command have changed. -/
def unassign (assigned : List Assigned) (s : Session) : Session :=
  assigned.foldr
    (fun a s =>
      match a.old with
      | some b => s.bind b
      | none => s.unbind a.name)
    s

/-- The commands whose words may be assignments. -/
def assigningCommands : List String := ["export", "readonly", "local"]

/-- Expands the words of a command. -/
def expandCommand (inner : Evaluator) (words : List Word) (s : Session) : Session × List (List Char) :=
  let assigns :=
    match words with
    | [.text cs false] :: _ => String.ofList cs ∈ assigningCommands
    | _ => false
  if !assigns then expandWords inner words s
  else
    words.foldl
      (fun (s, fields) word =>
        if !s.isGoing then (s, fields)
        else
          match assignment? word with
          | some _ =>
            let (s, atoms) := inner.expand { apart := false, afterColons := true } word s
            (s, fields ++ [textOfAtoms atoms])
          | none =>
            let (s, more) := expandWord inner word s
            (s, fields ++ more))
      (s, [])

/-- Runs a command by its name. -/
def runNamed (inner : Evaluator) (tested functions : Bool) (s : Session) (name : List Char)
    (arguments : List (List Char)) : Session :=
  match if functions then s.functions.lookup name else none with
  | some body => call inner tested s body arguments
  | none =>
    let start := { s with commandName := name }
    let back (after : Session) : Session :=
      let after :=
        if after.outputLost then
          { after with outputLost := false }.warn (name ++ ": I/O error".toList) |>.finish 1
        else after
      { after with commandName := s.commandName, outputLost := false }
    match builtin? name with
    | some f => back (f start arguments)
    | none =>
      match String.ofList name with
      | "eval" => back (runText inner tested 1 ([' '].intercalate arguments) start)
      | "." => back (runSource inner tested start arguments)
      | "type" => arguments.foldl (fun s word => describe s word false) (s.finish 0)
      | "exec" =>
        match arguments with
        | [] => s.finish 0
        | word :: rest =>
          let after := back (runMeaning inner start word rest)
          { after with flow := if after.flow = .killed then .killed else .replaced }
      | _ => runMeaning inner s name arguments

/-- Runs the command behind `command`, or says what it stands for. -/
def runDirectly (inner : Evaluator) (tested : Bool) (s : Session) (arguments : List (List Char)) :
    Session :=
  match arguments with
  | [] => s.finish 0
  | ['-', 'v'] :: name :: _ => describe (s.finish 0) name true
  | ['-', 'V'] :: name :: _ => describe (s.finish 0) name false
  | ['-', 'v'] :: [] | ['-', 'V'] :: [] => s.finish 0
  | ['-', 'p'] :: name :: rest | ['-', '-'] :: name :: rest | name :: rest =>
    runNamed inner tested false s name rest

/-- Runs a command that is not made of others. -/
def runSimple (inner : Evaluator) (tested : Bool) (line : Nat) (assignments : List (List Char × Word))
    (words : List Word) (redirections : List Redirection) (s : Session) : Session :=
  let s := { s with line }
  let (s, fields) := expandCommand inner words { s with outputStatus := 0 }
  if !s.isGoing then s
  else
    let before := s.descriptors
    let (s, ok) := redirect inner redirections s
    let back (s : Session) : Session := { s with descriptors := before }
    if !s.isGoing then back s
    else
      match fields with
      | [] =>
        if !ok then back (s.finish 2)
        else
          let (s, assigned) := assignAll inner false assignments s
          if !s.isGoing then back s
          else
            let s := if assigned.isEmpty then s else s.traceWords (assigned.map (·.shown))
            back (s.finish s.outputStatus)
      | name :: arguments =>
        let function := (s.functions.lookup name).isSome
        let special := String.ofList name ∈ specialBuiltins && !function
        if !ok then
          if special then back { s with status := 2, flow := .exiting } else back (s.finish 2)
        else
          let own := special || function || isBuiltin name
          let (s, assigned) := assignAll inner (!own || function) assignments s
          if !s.isGoing then back s
          else
            let s := s.traceWords (assigned.map (·.shown) ++ fields)
            let after :=
              if name = "command".toList && !function then
                let after := runDirectly inner tested s arguments
                match arguments with
                | inside :: _ =>
                  if after.flow = .exiting && after.status = 2 && String.ofList inside ∈ specialBuiltins
                      && inside ≠ "exit".toList && inside ≠ "eval".toList && inside ≠ ['.']
                      && inside ≠ "return".toList then
                    { after with flow := .going }
                  else after
                | [] => after
              else runNamed inner tested true s name arguments
            let after := if special then after else unassign assigned after
            if name = "exec".toList && arguments.isEmpty then after else back after

/-- Leaves a loop, or goes on with it: the flag tells. -/
def endOfBody (s : Session) : Session × Bool :=
  match s.flow with
  | .going => (s, true)
  | .breaking n =>
    ({ s with flow := if n ≤ 1 then .going else .breaking (n - 1) }, false)
  | .continuing n =>
    if n ≤ 1 then ({ s with flow := .going }, true) else ({ s with flow := .continuing (n - 1) }, false)
  | _ => (s, false)

/-- Runs a command that may be missing. -/
def runMaybe (inner : Evaluator) (tested : Bool) (command : Option Command) (s : Session) : Session :=
  match command with
  | some command => inner.run tested command s
  | none => s.finish 0

/-- Runs a loop with a condition. -/
def runLoop (inner : Evaluator) (tested whileZero : Bool) (condition body : Option Command) (s : Session) :
    Session :=
  let outside := s.loops
  let step (state : Session) : Session × Bool :=
    let result := state.outputStatus
    let s := runMaybe inner true condition state
    if s.isGoing then
      if (s.status = 0) = whileZero then
        let (s, more) := endOfBody (runMaybe inner tested body s)
        ({ s with outputStatus := s.status }, more)
      else (s.finish result, false)
    else
      let (s, more) := endOfBody s
      (if s.isGoing then { s with status := result, outputStatus := result } else s, more)
  let s := iterate step loopLimit { s with loops := outside + 1, outputStatus := 0 }
  { s with loops := outside }

/-- Runs a loop over words. -/
def runEach (inner : Evaluator) (tested : Bool) (name : List Char) (words : List Word)
    (body : Option Command) (s : Session) : Session :=
  let (s, fields) := expandWords inner words s
  if !s.isGoing then s
  else
    let outside := s.loops
    let (s, _) := fields.foldl
      (fun (s, more) field =>
        if !more then (s, more)
        else
          let s := s.assign name field
          if !s.isGoing then (s, false) else endOfBody (runMaybe inner tested body s))
      ({ s with loops := outside + 1, status := 0 }, true)
    { s with loops := outside }

/-- Runs the first branch of a choice with a pattern for the text. -/
def runChoice (inner : Evaluator) (tested : Bool) (text : List Char) : List Branch → Session → Session
  | [], s => s.finish 0
  | .mk patterns body :: rest, s =>
    let (s, found) := patterns.foldl
      (fun (s, found) word =>
        if found || !s.isGoing then (s, found)
        else
          let (s, pattern) := expandPattern inner word s
          (s, s.isGoing && pattern.matches text))
      (s, false)
    if !s.isGoing then s
    else if found then runMaybe inner tested body s
    else runChoice inner tested text rest s

/-- Runs commands whose outputs are the inputs of the next ones. -/
def runPipeline (inner : Evaluator) (commands : List Command) (s : Session) : Session :=
  let rec go (input : Option Nat) : List Command → Session → Session
    | [], s => s
    | command :: rest, s =>
      let reading (s : Session) : Session :=
        match input with
        | some number => s.connect 0 number
        | none => s
      if rest.isEmpty then
        inSubshell inner s fun s => inner.run false command (reading s)
      else
        let (number, world) := s.world.addChannel (.pipe [] [])
        let s := inSubshell inner { s with world } fun s =>
          inner.run false command ((reading s).connect 1 number)
        if s.isGoing then go (some number) rest s else s
  go none commands s

/-- The number of the next command in the background. -/
def nextBackground (s : Session) : Nat := processNumber + 1 + s.backgrounds.length

/-- Runs a command. -/
def runCommand (inner : Evaluator) (tested : Bool) (command : Command) (s : Session) : Session :=
  let checked (s : Session) : Session :=
    if s.isSet .exitOnError && !tested && s.status ≠ 0 && s.isGoing then { s with flow := .exiting }
    else s
  match command with
  | .nothing => s.finish 0
  | .simple line assignments words redirections =>
    checked (runSimple inner tested line assignments words redirections s)
  | .pipeline commands => checked (runPipeline inner commands s)
  | .negated command =>
    let s := inner.run true command s
    if s.isGoing then s.finish (if s.status = 0 then 1 else 0) else s
  | .both first second =>
    let s := inner.run true first s
    if s.isGoing && s.status = 0 then inner.run tested second s else s
  | .either first second =>
    let s := inner.run true first s
    if s.isGoing && s.status ≠ 0 then inner.run tested second s else s
  | .sequence commands =>
    commands.foldl (fun s command => if s.isGoing then inner.run tested command s else s) s
  | .background command =>
    let number := nextBackground s
    let after := inSubshell inner s fun s => inner.run false command (s.connectNew 0 .sink)
    { after with status := 0, backgrounds := (number, after.status) :: s.backgrounds }
  | .subshell line body redirections =>
    checked <| inSubshell inner { s with line } fun s =>
      let (s, ok) := redirect inner redirections s
      if !s.isGoing then s
      else if ok then runMaybe inner tested body s
      else s.finish 2
  | .redirected line body redirections =>
    let before := s.descriptors
    let (s, ok) := redirect inner redirections { s with line }
    let s :=
      if !s.isGoing then s
      else if ok then inner.run tested body s
      else checked (s.finish 2)
    { s with descriptors := before }
  | .conditional condition body otherwise =>
    let s := runMaybe inner true condition s
    if !s.isGoing then s
    else if s.status = 0 then runMaybe inner tested body s
    else runMaybe inner tested otherwise s
  | .loop whileZero condition body => runLoop inner tested whileZero condition body s
  | .each line name words body => runEach inner tested name words body { s with line }
  | .choice line word branches =>
    let (s, text) := expandText inner word { s with line }
    if s.isGoing then runChoice inner tested text branches s else s
  | .function name body =>
    { s with functions := (name, body) :: s.functions.filter (·.1 ≠ name), status := 0 }

end Session

/-- Commands and words are nested no deeper. -/
def depthLimit : Nat := 20000

/-- Runs commands and expands words that are nested up to the given depth. -/
def evaluator : Nat → Evaluator
  | 0 =>
    ⟨fun _ _ s => s.abort "Maximum function recursion depth reached".toList, fun _ _ s => (s, [])⟩
  | depth + 1 =>
    ⟨fun tested command s => Session.runCommand (evaluator depth) tested command s,
      fun m pieces s => expandPieces (evaluator depth) m true pieces s⟩

end KeywordIndex.Shell
