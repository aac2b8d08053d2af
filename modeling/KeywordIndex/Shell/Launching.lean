import KeywordIndex.Shell.Meaning
import KeywordIndex.Shell.Redirection
import KeywordIndex.Shell.Running
import KeywordIndex.Shell.Utility

namespace KeywordIndex.Shell

open Text

/-!
# Programs that are started

A program runs on the descriptors of the script that starts it. Some programs run others: with a changed
environment, with words from their input, or as commands of a script of their own.
-/

namespace Session

/-- Where programs are looked for if nothing else is said. -/
def usualPath : List Char := "/usr/local/sbin:/usr/local/bin:/usr/sbin:/usr/bin:/sbin:/bin".toList

/-- The parameters that every script has at its start, besides those that it is given. -/
def withDefaults (given : List Binding) : List Binding :=
  let defaults : List Binding :=
    [{ name := "PATH".toList, value := some usualPath },
     { name := "OPTIND".toList, value := some ['1'] },
     { name := "PS1".toList, value := some ['$', ' '] },
     { name := "PS2".toList, value := some ['>', ' '] },
     { name := "PS4".toList, value := some ['+', ' '] },
     { name := "PPID".toList, value := some (toString processNumber).toList }]
  let separators : Binding := { name := "IFS".toList, value := some [' ', '\t', '\n'] }
  let others := given.filter (·.name ≠ separators.name)
  separators :: defaults.filter (fun d => others.all (·.name ≠ d.name)) ++ others

/-- A new script that is started by this one. -/
def child (s : Session) (self : List Char) (arguments : List (List Char)) : Session where
  self := self
  arguments := arguments
  world := s.world
  bindings := withDefaults (s.bindings.filter (·.exported))
  directory := s.directory
  descriptors := s.descriptors

/-- A program before it is run on the descriptors of the script. -/
def jobOf (s : Session) (name : List Char) (arguments : List (List Char)) : Job where
  name := name
  arguments := arguments
  input := s.waiting 0
  inputSize :=
    match (s.channel? 0).bind fun number => s.world.channels[number]? with
    | some (.file place _ _) => some (s.world.contentAt place).length
    | _ => none
  disk := s.world.disk
  directory := s.directory

/-- Runs a program on the descriptors of the script. -/
def runJob (s : Session) (program : Program) (name : List Char) (arguments : List (List Char)) : Session :=
  let job := Job.run program (s.jobOf name arguments)
  let s := { s with world := { s.world with disk := job.disk } }
  let s := if job.inputRead then s.advance 0 job.input.length else s
  (job.writes.reverse.foldl (fun s (descriptor, cs) => s.write descriptor cs) s).finish job.status

/-- A command of words that are taken as they are. -/
def plainCommand (line : Nat) (words : List (List Char)) : Command :=
  .simple line [] (words.map fun cs => [.quote, .text cs true]) []

/-- Runs words as a command that is neither a function nor a command of the script. -/
def runElsewhere (inner : Evaluator) (s : Session) (words : List (List Char)) : Session :=
  match words with
  | [] => s
  | name :: arguments =>
    let path := if name.contains '/' then name else (s.programPath? name).getD name
    inSubshell inner { s with functions := [] } fun s =>
      match builtin? path with
      | some _ => s.finish 127
      | none => inner.run true (plainCommand s.line (path :: arguments)) s

/-- Changes that are made to the parameters of a program by words with equals signs. -/
def withEnvironment (s : Session) : List (List Char) → Session × List (List Char)
  | [] => (s, [])
  | word :: rest =>
    let (name, value) := nameAndValue word
    match value with
    | some value => withEnvironment (s.bind { name, value, exported := true }) rest
    | none => (s, word :: rest)

/-- Shows the parameters that programs are given. -/
def showEnvironment (s : Session) (names : List (List Char)) : Session :=
  let exported := s.bindings.filter fun b => b.exported && b.value.isSome
  if names.isEmpty then
    (s.write 1 (exported.flatMap fun b => b.name ++ '=' :: b.value.getD [] ++ ['\n'])).finish 0
  else
    names.foldl
      (fun s name =>
        match exported.find? (·.name = name) with
        | some b => s.write 1 (b.value.getD [] ++ ['\n'])
        | none => s.finish 1)
      (s.finish 0)

/-- Runs a command with a changed environment, or shows it. -/
def runEnv (inner : Evaluator) (s : Session) (self : List Char) (arguments : List (List Char)) :
    Session :=
  let (s, arguments) :=
    match arguments with
    | ['-', 'i'] :: rest | ['-'] :: rest =>
      ({ s with bindings := [{ name := "PATH".toList, value := some usualPath }] }, rest)
    | ['-', 'u'] :: name :: rest => (s.unbind name, rest)
    | ['-', '-'] :: rest => (s, rest)
    | _ => (s, arguments)
  let (s, words) := withEnvironment s arguments
  match words with
  | [] =>
    let text := (s.bindings.filter (·.exported)).flatMap fun b =>
      b.name ++ '=' :: (b.value.getD []) ++ ['\n']
    (s.write 1 text).finish 0
  | name :: _ =>
    match s.meaningOf name with
    | .unusable status reason =>
      let reason := if reason = "not found".toList then "No such file or directory".toList else reason
      (s.write 2 (self ++ ": ".toList ++ Job.quoted name ++ ": ".toList ++ reason ++ ['\n'])).finish status
    | _ => runElsewhere inner s words

/-- Cuts a text into words at blanks and line ends, with quotes and backslashes around others. -/
def quotedWords : Nat → List Char → Option (List Char) → List (List Char)
  | 0, _, word => word.toList.map List.reverse
  | _ + 1, [], word => word.toList.map List.reverse
  | fuel + 1, c :: cs, word =>
    let add (inside rest : List Char) : List (List Char) :=
      quotedWords fuel rest (some (inside.reverse ++ word.getD []))
    if c == ' ' || c == '\t' || c == '\n' then
      match word with
      | some w => w.reverse :: quotedWords fuel cs none
      | none => quotedWords fuel cs none
    else if c == '\'' || c == '"' then
      let inside := cs.takeWhile (· ≠ c)
      add inside (cs.drop (inside.length + 1))
    else if c == '\\' then add (cs.take 1) (cs.drop 1)
    else add [c] cs

/-- How words from an input are handed to commands. -/
structure Batches where
  /-- The number of words for each command, or zero if one takes them all. -/
  size : Nat := 0
  /-- What the words take the place of, if they are not put behind the command. -/
  mark : Option (List Char) := none
  /-- The character behind each word, if not blanks. -/
  separator : Option Char := none
  /-- Nothing is run if there are no words. -/
  skipsNone : Bool := false

/-- Reads the options before a command that takes words from an input. -/
def readBatches : Nat → List (List Char) → Batches → Batches × List (List Char)
  | 0, words, b => (b, words)
  | fuel + 1, words, b =>
    match words with
    | ['-', 'n'] :: n :: rest | ('-' :: 'n' :: n) :: rest =>
      readBatches fuel rest { b with size := numberIn 10 n }
    | ['-', 'L'] :: n :: rest =>
      readBatches fuel rest { b with size := numberIn 10 n, separator := some '\n' }
    | ['-', 'I'] :: m :: rest | ('-' :: 'I' :: m) :: rest =>
      readBatches fuel rest { b with size := 1, mark := some m, separator := some '\n' }
    | ['-', '0'] :: rest => readBatches fuel rest { b with separator := some '\x00' }
    | ['-', 'r'] :: rest => readBatches fuel rest { b with skipsNone := true }
    | ['-', 'd'] :: ['\\', 'n'] :: rest => readBatches fuel rest { b with separator := some '\n' }
    | ['-', 'd'] :: [d] :: rest => readBatches fuel rest { b with separator := some d }
    | ['-', '-'] :: rest => (b, rest)
    | _ => (b, words)

/-- The words of an input. -/
def Batches.wordsOf (b : Batches) (input : List Char) : List (List Char) :=
  match b.separator with
  | none => quotedWords (input.length + 1) input none
  | some c =>
    let pieces := split c input
    let pieces := if pieces.getLast? = some [] then pieces.dropLast else pieces
    if b.mark.isSome then (pieces.map (·.dropWhile (· == ' '))).filter (!·.isEmpty) else pieces

/-- The words for each command. -/
def Batches.groups (b : Batches) : Nat → List (List Char) → List (List (List Char))
  | 0, _ => []
  | _ + 1, [] => []
  | fuel + 1, words =>
    if b.size = 0 then [words] else words.take b.size :: groups b fuel (words.drop b.size)

/-- A command with its words from the input. -/
def Batches.command (b : Batches) (words group : List (List Char)) : List (List Char) :=
  match b.mark with
  | some mark => words.map fun word => Job.replaceAll mark (group.head?.getD []) word.length word
  | none => words ++ group

/-- Runs a command with words from the input. -/
def runXargs (inner : Evaluator) (s : Session) (self : List Char) (arguments : List (List Char)) :
    Session :=
  let input := s.waiting 0
  let s := s.advance 0 input.length
  let (b, words) := readBatches (arguments.length + 1) arguments {}
  let words := if words.isEmpty then ["echo".toList] else words
  let items := b.wordsOf input
  let groups :=
    if items.isEmpty && b.mark.isNone && !b.skipsNone then [[]] else b.groups (items.length + 1) items
  groups.foldl
    (fun s group =>
      let command := b.command words group
      let name := command.head?.getD []
      match s.meaningOf name with
      | .unusable status _ =>
        (s.write 2 (self ++ ": ".toList ++ name ++ ": No such file or directory\n".toList)).finish status
      | _ =>
        let after := runElsewhere inner s command
        after.finish (if after.status = 0 then s.status else 123))
    (s.finish 0)

/-- The shell as a program. -/
def runShell (inner : Evaluator) (s : Session) (name : List Char) (arguments : List (List Char)) :
    Session :=
  let rec options (s : Session) : List (List Char) → Session × Bool × List (List Char)
    | ['-', '-'] :: rest => (s, false, rest)
    | ('-' :: c :: cs) :: rest =>
      let commands := (c :: cs).contains 'c'
      let s := (c :: cs).foldl
        (fun s letter => ((Setting.ofLetter? letter).map (s.change · true)).getD s) s
      if commands then (s, true, rest) else options s rest
    | rest => (s, false, rest)
  let (start, fromWord, words) := options (s.child name []) arguments
  let after :=
    match fromWord, words with
    | true, [] => (start.warn "-c requires an argument".toList).finish 2
    | true, text :: rest =>
      let (self, rest) := match rest with
        | self :: rest => (self, rest)
        | [] => (name, [])
      conclude inner (runText inner false 1 text { start with self, arguments := rest })
    | false, [] =>
      let text := start.waiting 0
      conclude inner (runText inner false 1 text (start.advance 0 text.length))
    | false, path :: rest =>
      match start.world.disk.read (start.pathOf path) with
      | .ok content =>
        conclude inner
          (runText inner false 1 (octetsOfBytes content) { start with self := path, arguments := rest })
      | .error fault =>
        let start := { start with line := 0 }
        (start.warn ("cannot open ".toList ++ path ++ ": ".toList ++ openReason false fault)).finish 2
  let s := { s with world := after.world, status := after.status % 256 }
  if after.flow = .killed then s.finish after.status else s

/-- Runs a file with commands, by the program that its first line names. -/
def runFile (inner : Evaluator) (s : Session) (path content : List Char) (arguments : List (List Char)) :
    Session :=
  match content with
  | '#' :: '!' :: rest =>
    let line := rest.takeWhile (· ≠ '\n')
    let words := (splitWhere (fun c => c == ' ' || c == '\t') line).filter (!·.isEmpty)
    match words with
    | [] => runShell inner s path (path :: arguments)
    | interpreter :: options =>
      let option := if options.isEmpty then [] else [[' '].intercalate options]
      match s.meaningOfPath interpreter with
      | .unusable _ reason => (s.warn (path ++ ": ".toList ++ reason)).finish 127
      | _ => runElsewhere inner s (interpreter :: option ++ path :: arguments)
  | _ => runShell inner s path (path :: arguments)

/-- Runs a program of the system. Some of them run other programs. -/
def runProgram (inner : Evaluator) (s : Session) (name path : List Char) (arguments : List (List Char)) :
    Session :=
  match String.ofList name with
  | "sh" | "dash" | "bash" => runShell inner s path arguments
  | "env" => { runEnv inner s path arguments with bindings := s.bindings }
  | "xargs" => runXargs inner s path arguments
  | "nohup" => runElsewhere inner s arguments
  | "test" => s.test false arguments
  | "[" => s.test true arguments
  | "pwd" => (s.write 1 (octetsOf ("/" ++ "/".intercalate s.directory) ++ ['\n'])).finish 0
  | "printenv" => showEnvironment s arguments
  | "which" => locate s arguments
  | "nice" =>
    match arguments with
    | ['-', 'n'] :: _ :: rest => runElsewhere inner s rest
    | _ => runElsewhere inner s arguments
  | "timeout" => runElsewhere inner s (arguments.drop 1)
  | other =>
    match utility? other with
    | some program => s.runJob program path arguments
    | none => s.finish 0

/-- Runs what a name stands for, with arguments. -/
def runMeaning (inner : Evaluator) (s : Session) (name : List Char) (arguments : List (List Char)) :
    Session :=
  match s.meaningOf name with
  | .program program path => runProgram inner s program path arguments
  | .script path content => runFile inner s path content arguments
  | .unusable status reason =>
    (s.warn (name ++ ": ".toList ++ reason)).finish status

end Session

end KeywordIndex.Shell
