import KeywordIndex.Shell.Condition
import KeywordIndex.Shell.Printing

namespace KeywordIndex.Shell

open Text

/-!
# Commands of the script itself

Some commands change the script that runs them: its parameters, its arguments, its options and the way
it goes on.
-/

namespace Session

/-- Ends a command with a status. -/
def finish (s : Session) (status : Nat) : Session := { s with status }

/-- A complaint of a command that does not end the script. -/
def reject (s : Session) (message : List Char) : Session := (s.warn message).finish 2

/-- A number among the arguments of a command, or the end of the script. -/
def withNumber (s : Session) (word : List Char) (f : Nat → Session) : Session :=
  if !word.isEmpty && word.all Char.isDigit && numberIn 10 word ≤ 2147483647 then f (numberIn 10 word)
  else s.abort ("Illegal number: ".toList ++ word)

/-- Leaves the script. -/
def exit (s : Session) : List (List Char) → Session
  | [] => { s with flow := .exiting }
  | word :: _ => s.withNumber word fun n => { s with flow := .exiting, status := n }

/-- Leaves a function or a file. -/
def returnFrom (s : Session) : List (List Char) → Session
  | [] => { s with flow := .returning }
  | word :: _ => s.withNumber word fun n => { s with flow := .returning, status := n }

/-- Leaves loops, or goes on with one. -/
def leave (s : Session) (flow : Nat → Flow) (arguments : List (List Char)) : Session :=
  let leaveMany (n : Nat) : Session :=
    let n := min n s.loops
    if n = 0 then s.finish 0 else { s.finish 0 with flow := flow n }
  match arguments with
  | [] => leaveMany 1
  | word :: _ =>
    s.withNumber word fun n =>
      if n = 0 then s.abort ("Illegal number: ".toList ++ word) else leaveMany n

/-- Drops arguments. -/
def shift (s : Session) (arguments : List (List Char)) : Session :=
  let drop (n : Nat) : Session :=
    if s.arguments.length < n then s.abort "can't shift that many".toList
    else { s with arguments := s.arguments.drop n, status := 0 }
  match arguments with
  | [] => drop 1
  | word :: _ => s.withNumber word drop

/-- The name in a word, and the value behind an equals sign. -/
def nameAndValue (word : List Char) : List Char × Option (List Char) :=
  let name := word.takeWhile (· ≠ '=')
  (name, if name.length < word.length then some (word.drop (name.length + 1)) else none)

/-- Complains about a name. -/
def badName (s : Session) (word : List Char) : Session := s.abort (word ++ ": bad variable name".toList)

/-- A value between quotes, as a script would write it. -/
def quotedValue (cs : List Char) : List Char :=
  ['\''] ++ cs.flatMap (fun c => if c = '\'' then "'\"'\"'".toList else [c]) ++ ['\'']

/-- Writes some parameters, each behind a word. -/
def listBindings (s : Session) (head : String) (p : Binding → Bool) : Session :=
  let chosen := (s.bindings.filter p).mergeSort fun a b => precedes a.name b.name
  let text := chosen.flatMap fun b =>
    head.toList ++ b.name ++
      (match b.value with
        | some value => '=' :: quotedValue value
        | none => []) ++ ['\n']
  (s.write 1 text).finish 0

/-- Marks parameters, and gives them values. -/
def mark (s : Session) (head : String) (p : Binding → Bool) (change : Binding → Binding)
    (arguments : List (List Char)) : Session :=
  match arguments with
  | [] => s.listBindings head p
  | ['-', 'p'] :: [] => s.listBindings head p
  | ['-', 'p'] :: words | words =>
    let words := words.filter (· ≠ "--".toList)
    words.foldl
      (fun s word =>
        if !s.isGoing then s
        else
          let (name, value) := nameAndValue word
          if !isGoodName name then s.badName word
          else
            let s :=
              match value with
              | some value => s.assign name value
              | none => s
            if !s.isGoing then s
            else
              match s.binding? name with
              | some b => s.bind (change b)
              | none => s.bind (change { name, value := none }))
      (s.finish 0)

/-- Gives parameters to a function that are taken away at its end. -/
def makeLocal (s : Session) (arguments : List (List Char)) : Session :=
  if s.functionDepth = 0 then s.abort "not in a function".toList
  else
    arguments.foldl
      (fun s word =>
        if !s.isGoing then s
        else
          let (name, value) := nameAndValue word
          if name = ['-'] then s
          else if !isGoodName name then s.badName word
          else
            let s :=
              if s.hidden.any (·.1 = name) then s
              else { s with hidden := (name, s.binding? name) :: s.hidden }
            match value with
            | some value => s.assign name value
            | none => s)
      (s.finish 0)

/-- Takes parameters or functions away. -/
def unset (s : Session) (arguments : List (List Char)) : Session :=
  let (functions, names) :=
    match arguments with
    | ['-', 'f'] :: rest => (true, rest)
    | ['-', 'v'] :: rest => (false, rest)
    | _ => (false, arguments)
  names.foldl
    (fun s name =>
      if !s.isGoing then s
      else if functions then { s with functions := s.functions.filter (·.1 ≠ name) }
      else if !isGoodName name then s.badName name
      else
        match s.binding? name with
        | some b => if b.readOnly then s.abort (name ++ ": is read only".toList) else s.unbind name
        | none => s)
    (s.finish 0)

/-- Lists the options, for a reader or for a script that sets them again. -/
def listSettings (s : Session) (on : Bool) : Session :=
  let lines := Setting.all.map fun setting =>
    let name := setting.label.1.toList
    if on then
      name ++ List.replicate (16 - name.length) ' ' ++ (if s.isSet setting then "on" else "off").toList
    else "set ".toList ++ [if s.isSet setting then '-' else '+', 'o', ' '] ++ name
  let head := if on then ["Current option settings".toList] else []
  s.write 1 ((head ++ lines).flatMap (· ++ ['\n']))

/-- Changes the options that the letters of a word name. The letter `o` takes the next word as a name. -/
def setLetters (on : Bool) : List Char → List (List Char) → Session → Session × List (List Char)
  | [], rest, s => (s, rest)
  | 'o' :: letters, rest, s =>
    match rest with
    | [] => setLetters on letters [] (s.listSettings on)
    | name :: rest =>
      match Setting.ofName? name with
      | some setting => setLetters on letters rest (s.change setting on)
      | none => (s.abort ("Illegal option -o ".toList ++ name), rest)
  | letter :: letters, rest, s =>
    match Setting.ofLetter? letter with
    | some setting => setLetters on letters rest (s.change setting on)
    | none => (s.abort ("Illegal option -".toList ++ [letter]), rest)

/-- Changes options and arguments. Words behind the options become the arguments. -/
def setFrom : Nat → List (List Char) → Session → Session
  | 0, _, s => s
  | _ + 1, [], s => s
  | fuel + 1, word :: rest, s =>
    let arguments (words : List (List Char)) : Session := { s with arguments := words }
    match word with
    | ['-'] =>
      let s := (s.change .trace false).change .verbose false
      if rest.isEmpty then s else { s with arguments := rest }
    | ['-', '-'] => arguments rest
    | '-' :: letters | '+' :: letters =>
      let (s, rest) := setLetters (word.head? = some '-') letters rest s
      if s.isGoing then setFrom fuel rest s else s
    | _ => arguments (word :: rest)

/-- Changes options and arguments. -/
def set (s : Session) (words : List (List Char)) : Session := setFrom (words.length + 1) words s

/-- Cuts a line at separators into at most `count` fields, of which the last one takes what is left.
A backslash has been taken away from characters that are marked. -/
def cutLine (separators : List Char) : (count fuel : Nat) → List (Char × Bool) → List (List Char)
  | 0, _, _ => []
  | _, 0, _ => []
  | count + 1, fuel + 1, line =>
    let isSeparator (c : Char × Bool) : Bool := !c.2 && separators.contains c.1
    let isWhite (c : Char × Bool) : Bool := isSeparator c && (c.1 == ' ' || c.1 == '\t' || c.1 == '\n')
    let line := line.dropWhile isWhite
    let field := line.takeWhile (!isSeparator ·)
    let rest := line.drop field.length
    let spaced := rest.dropWhile isWhite
    let behind :=
      match spaced with
      | c :: more => if isSeparator c then more.dropWhile isWhite else spaced
      | [] => []
    if count = 0 then
      if behind.isEmpty then [field.map (·.1)]
      else [((line.reverse.dropWhile isWhite).reverse).map (·.1)]
    else if line.isEmpty then []
    else field.map (·.1) :: cutLine separators count fuel behind

/-- Reads a line from some text: the characters, each with a mark if a backslash stood before it, the
number of characters that were read, and whether the line was complete. -/
def readLineFrom (raw : Bool) : List Char → List (Char × Bool) × Nat × Bool
  | [] => ([], 0, false)
  | '\n' :: _ => ([], 1, true)
  | c :: cs =>
    if c = '\\' && !raw then
      match cs with
      | [] => ([], 1, false)
      | '\n' :: rest =>
        let (line, used, complete) := readLineFrom raw rest
        (line, used + 2, complete)
      | d :: rest =>
        let (line, used, complete) := readLineFrom raw rest
        ((d, true) :: line, used + 2, complete)
    else
      let (line, used, complete) := readLineFrom raw cs
      ((c, false) :: line, used + 1, complete)

/-- Reads a line into parameters. -/
def readInto (s : Session) (arguments : List (List Char)) : Session :=
  let (raw, names) :=
    match arguments with
    | ['-', 'r'] :: ['-', '-'] :: rest => (true, rest)
    | ['-', 'r'] :: rest => (true, rest)
    | ['-', 'p'] :: _ :: rest => (false, rest)
    | ['-', '-'] :: rest => (false, rest)
    | _ => (false, arguments)
  match names with
  | [] => s.reject "arg count".toList
  | _ =>
    match names.find? (!isGoodName ·) with
    | some bad => s.reject (bad ++ ": bad variable name".toList)
    | none =>
      let (line, used, complete) := readLineFrom raw (s.waiting 0)
      let line := line.filter (·.1 ≠ '\x00')
      let fields := cutLine s.separators names.length (line.length + 1) line
      let values := fields ++ List.replicate (names.length - fields.length) []
      let s := (names.zip values).foldl (fun s (name, value) => s.assign name value) (s.advance 0 used)
      if s.isGoing then s.finish (if complete then 0 else 1) else s

/-- The signals by their numbers, `EXIT` being the end of the script. -/
def signalNames : List String :=
  ["EXIT", "HUP", "INT", "QUIT", "ILL", "TRAP", "ABRT", "BUS", "FPE", "KILL", "USR1", "SEGV", "USR2",
   "PIPE", "ALRM", "TERM", "STKFLT", "CHLD", "CONT", "STOP", "TSTP", "TTIN", "TTOU", "URG", "XCPU",
   "XFSZ", "VTALRM", "PROF", "WINCH", "IO", "PWR", "SYS"]

/-- The number of a signal, by its number or name. -/
def signalNumber? (word : List Char) : Option Nat :=
  if !word.isEmpty && word.all Char.isDigit then
    let n := numberIn 10 word
    if n < 65 then some n else none
  else
    let name := (String.ofList word).toUpper
    signalNames.findIdx? (· = name)

/-- The name of a signal. -/
def signalName (n : Nat) : List Char := ((signalNames[n]?).getD (toString n)).toList

/-- Says what happens on signals, or lists it. -/
def trap (s : Session) (arguments : List (List Char)) : Session :=
  let arguments :=
    match arguments with
    | ['-', '-'] :: rest => rest
    | _ => arguments
  match arguments with
  | [] =>
    let numbered := s.traps.filterMap fun (name, action) =>
      (signalNumber? name).map fun n => (n, name, action)
    let text := (numbered.mergeSort fun a b => a.1 ≤ b.1).flatMap fun (_, name, action) =>
      "trap -- ".toList ++ quotedValue action ++ [' '] ++ name ++ ['\n']
    (s.write 1 text).finish 0
  | action :: signals =>
    let (action, signals) :=
      if signals.isEmpty || (!action.isEmpty && action.all Char.isDigit) then (['-'], action :: signals)
      else (action, signals)
    signals.foldl
      (fun s word =>
        match signalNumber? word with
        | none => s.reject (word ++ ": bad trap".toList)
        | some n =>
          let name := signalName n
          let others := s.traps.filter (·.1 ≠ name)
          if action = ['-'] then { s with traps := others }
          else { s with traps := (name, action) :: others })
      (s.finish 0)

/-- Changes the directory. -/
def changeDirectory (s : Session) (arguments : List (List Char)) : Session :=
  let arguments := arguments.filter fun a => a ≠ "-L".toList && a ≠ "-P".toList && a ≠ "--".toList
  let target :=
    match arguments with
    | [] => (s.value? "HOME".toList).getD []
    | ['-'] :: _ => (s.value? "OLDPWD".toList).getD []
    | word :: _ => word
  if target.isEmpty then s.finish 0
  else
    let written (place : Place) : List Char := octetsOf ("/" ++ "/".intercalate place)
    match s.world.disk.find (s.pathOf target) with
    | .ok (place, .directory) =>
      let before := (s.value? "PWD".toList).getD (written s.directory)
      let s := (s.assign "OLDPWD".toList before).assign "PWD".toList (written place)
      let s := { s with directory := place }.finish 0
      if arguments = [['-']] then s.write 1 (written place ++ ['\n']) else s
    | _ => s.reject ("can't cd to ".toList ++ target)

/-- Reads an option from the arguments, as far as they have been read. -/
def getOption (s : Session) (arguments : List (List Char)) : Session :=
  match arguments with
  | letters :: name :: rest =>
    let words := if rest.isEmpty then s.arguments else rest
    let index := ((s.value? "OPTIND".toList).bind fun cs => (String.ofList cs).toNat?).getD 1
    let number (n : Nat) : List Char := (toString n).toList
    let stop (s : Session) (index : Nat) : Session :=
      (({ s with optionOffset := 0 }.assign name ['?']).assign "OPTIND".toList (number index)).finish 1
    match words[index - 1]? with
    | none => stop s index
    | some word =>
      if s.optionOffset = 0 && (word.head? ≠ some '-' || word = ['-']) then stop s index
      else if s.optionOffset = 0 && word = ['-', '-'] then stop s (index + 1)
      else
        let offset := max 1 s.optionOffset
        let letter := (word[offset]?).getD '?'
        let more := offset + 1 < word.length
        let silent := letters.head? = some ':'
        let known := letter ≠ ':' && letters.contains letter
        let takesValue := (letters.dropWhile (· ≠ letter))[1]? = some ':'
        let next (s : Session) (whole : Bool) (extra : Nat) : Session :=
          let index := index + extra + if more && !whole then 0 else 1
          { s with optionOffset := if more && !whole then offset + 1 else 0 }.assign
            "OPTIND".toList (number index)
        if !known then
          let s :=
            if silent then s.assign "OPTARG".toList [letter]
            else
              ({ s with commandName := [] }.write 2
                (s.self ++ ": Illegal option -".toList ++ [letter, '\n'])).unbind "OPTARG".toList
          ((next s false 0).assign name ['?']).finish 0
        else if !takesValue then
          ((next (s.unbind "OPTARG".toList) false 0).assign name [letter]).finish 0
        else if more then
          ((next (s.assign "OPTARG".toList (word.drop (offset + 1))) true 0).assign name [letter]).finish 0
        else
          match words[index]? with
          | some value =>
            ((next (s.assign "OPTARG".toList value) true 1).assign name [letter]).finish 0
          | none =>
            if silent then
              ((next (s.assign "OPTARG".toList [letter]) true 0).assign name [':']).finish 0
            else
              let s := (s.write 2 (s.self ++ ": No arg for -".toList ++ [letter] ++
                " option\n".toList)).unbind "OPTARG".toList
              ((next s true 0).assign name ['?']).finish 0
  | _ => s.reject "Usage: getopts optstring var [arg...]".toList

/-- Shows the permissions that new files do not get, or changes them. -/
def changeMask (s : Session) : List (List Char) → Session
  | [] =>
    let digits := Nat.toDigits 8 s.mask
    (s.write 1 (List.replicate (4 - digits.length) '0' ++ digits ++ ['\n'])).finish 0
  | ['-', 'S'] :: _ =>
    let granted (n : Nat) : List Char :=
      ("rwx".toList.zip [4, 2, 1]).filterMap fun (c, bit) => if n / bit % 2 = 0 then some c else none
    let text := ("ugo".toList.zip [64, 8, 1]).map fun (c, unit) => c :: '=' :: granted (s.mask / unit % 8)
    (s.write 1 ([','].intercalate text ++ ['\n'])).finish 0
  | word :: _ =>
    if !word.isEmpty && word.all isOctal then { s.finish 0 with mask := numberIn 8 word % 512 }
    else if word.head?.any Char.isDigit then s.reject ("Illegal number: ".toList ++ word)
    else s.reject ("Illegal mode: ".toList ++ word)

/-- Sends signals. Only the script itself is known by its number. -/
def sendSignal (s : Session) (arguments : List (List Char)) : Session :=
  let deliver (signal : Nat) (targets : List (List Char)) : Session :=
    targets.foldl
      (fun s target =>
        if target = (toString processNumber).toList then
          if signal = 0 then s.finish 0
          else { s with flow := .killed, status := 128 + signal }
        else
          s.warn ("No such process".toList) |>.finish 1)
      (s.finish 0)
  match arguments with
  | ['-', 'l'] :: rest =>
    match rest with
    | word :: _ =>
      match (String.ofList word).toNat? with
      | some n => (s.write 1 (signalName (if n < 128 then n else n - 128) ++ ['\n'])).finish 0
      | none => s.reject ("Illegal number: ".toList ++ word)
    | [] =>
      let lines := (signalNames.drop 1).map fun name => name.toList ++ ['\n']
      (s.write 1 lines.flatten).finish 0
  | ['-', 's'] :: word :: targets =>
    match signalNumber? word with
    | some n => deliver n targets
    | none => s.reject ("invalid signal number or name: ".toList ++ word)
  | ('-' :: word) :: targets =>
    match signalNumber? word with
    | some n => deliver n targets
    | none => s.reject ("Illegal option -".toList ++ word.take 1)
  | [] =>
    s.reject <|
      "Usage: kill [-s sigspec | -signum | -sigspec] [pid | job]... or\nkill -l [exitstatus]".toList
  | targets => deliver 15 targets

/-- Waits for commands in the background, which have all ended. -/
def wait (s : Session) (arguments : List (List Char)) : Session :=
  arguments.foldl
    (fun s word =>
      let found := s.backgrounds.find? fun (n, _) => (toString n).toList = word
      s.finish ((found.map (·.2)).getD 127))
    (s.finish 0)

/-- Writes a format. -/
def printFormat (s : Session) (arguments : List (List Char)) : Session :=
  let write (format : List Char) (words : List (List Char)) : Session :=
    let p := printf format words
    let s := p.warnings.foldl (fun s w => s.warn w) s
    match p.halted with
    | none | some [] => (s.write 1 p.text).finish (if p.warnings.isEmpty then 0 else 1)
    | some message => (s.reject message).write 1 p.text
  match arguments with
  | [] | [['-', '-']] => s.reject "usage: printf format [arg ...]".toList
  | ['-', '-'] :: format :: words => write format words
  | ('-' :: letter :: _) :: _ => s.reject ("Illegal option -".toList ++ [letter])
  | format :: words => write format words

/-- Finds out whether a condition holds. -/
def test (s : Session) (bracketed : Bool) (arguments : List (List Char)) : Session :=
  let words? :=
    if !bracketed then some arguments
    else if (arguments.getLast?.bind List.head?) = some ']' then some arguments.dropLast
    else none
  match words? with
  | none => s.reject "missing ]".toList
  | some words =>
    match s.holds words with
    | .ok result => s.finish (if result then 0 else 1)
    | .error fault => s.reject fault

end Session

/-- A command of the script itself. -/
abbrev Builtin := Session → List (List Char) → Session

/-- The commands that run no others. -/
def builtin? (name : List Char) : Option Builtin :=
  match String.ofList name with
  | ":" | "true" => some fun s _ => s.finish 0
  | "false" => some fun s _ => s.finish 1
  | "echo" => some fun s words => (s.write 1 (echo words)).finish 0
  | "printf" => some Session.printFormat
  | "test" => some fun s words => s.test false words
  | "[" => some fun s words => s.test true words
  | "exit" => some Session.exit
  | "return" => some Session.returnFrom
  | "break" => some fun s words => s.leave .breaking words
  | "continue" => some fun s words => s.leave .continuing words
  | "shift" => some Session.shift
  | "export" =>
    some fun s words => s.mark "export " (·.exported) (fun b => { b with exported := true }) words
  | "readonly" =>
    some fun s words => s.mark "readonly " (·.readOnly) (fun b => { b with readOnly := true }) words
  | "local" => some Session.makeLocal
  | "unset" => some Session.unset
  | "set" =>
    some fun s words =>
      if words.isEmpty then s.listBindings "" (·.value.isSome) else (s.finish 0).set words
  | "read" => some Session.readInto
  | "trap" => some Session.trap
  | "cd" | "chdir" => some Session.changeDirectory
  | "pwd" =>
    some fun s _ =>
      (s.write 1 (octetsOf ("/" ++ "/".intercalate s.directory) ++ ['\n'])).finish 0
  | "getopts" => some Session.getOption
  | "kill" => some Session.sendSignal
  | "umask" => some Session.changeMask
  | "ulimit" => some fun s _ => (s.write 1 "unlimited\n".toList).finish 0
  | "times" =>
    some fun s _ =>
      let line := "0m0.000000s 0m0.000000s\n".toList
      (s.write 1 (line ++ line)).finish 0
  | "wait" => some Session.wait
  | "alias" | "unalias" | "hash" | "jobs" | "bg" | "fg" => some fun s _ => s.finish 0
  | _ => none

/-- The commands of the script that run others. -/
def runningBuiltins : List String := [".", "eval", "exec", "command", "type"]

/-- Whether the script itself has a command of the name. -/
def isBuiltin (name : List Char) : Bool :=
  (builtin? name).isSome || String.ofList name ∈ runningBuiltins

end KeywordIndex.Shell
