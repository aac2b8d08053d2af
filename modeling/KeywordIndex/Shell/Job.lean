import KeywordIndex.Shell.Machine

namespace KeywordIndex.Shell

open Text

/-!
# Programs at work

A program of the system is given arguments and an input, changes the disk and writes to two outputs.
-/

/-- A program at work. -/
structure Job where
  /-- The name by which it was called. -/
  name : List Char
  arguments : List (List Char)
  /-- What can be read from its input. -/
  input : List Char
  /-- Whether it has read its input. -/
  inputRead : Bool := false
  /-- The size of the file that is its input, if one is. -/
  inputSize : Option Nat := none
  disk : DiskStorage
  directory : Place
  /-- What was written and to which output, the last first. -/
  writes : List (Nat × List Char) := []
  /-- The status that the program ends with if nothing else happens. -/
  status : Nat := 0

/-- What a program does, which ends with a status. -/
abbrev Program := ExceptT Nat (StateM Job) Unit

/-- A step of a program. -/
abbrev ProgramStep := ExceptT Nat (StateM Job)

namespace Job

/-- Writes to the output. -/
def out (cs : List Char) : ProgramStep Unit :=
  if cs.isEmpty then return else modify fun j => { j with writes := (1, cs) :: j.writes }

/-- Writes to the output for errors. -/
def err (cs : List Char) : ProgramStep Unit := modify fun j => { j with writes := (2, cs) :: j.writes }

/-- The last part of the name by which a program was called. -/
def shortName (name : List Char) : List Char := (name.reverse.takeWhile (· ≠ '/')).reverse

/-- Complains. -/
def warn (message : List Char) : ProgramStep Unit := do
  err ((← get).name ++ ": ".toList ++ message ++ ['\n'])

/-- Makes the program end with a status, but goes on. -/
def mark (status : Nat) : ProgramStep Unit := modify fun j => { j with status := max j.status status }

/-- Complains and ends. -/
def fail {α : Type} (status : Nat) (message : List Char) : ProgramStep α := do
  warn message
  throw status

/-- Complains about wrong usage and ends. -/
def misuse {α : Type} (status : Nat) (message : List Char) : ProgramStep α := do
  warn message
  err ("Try '".toList ++ (← get).name ++ " --help' for more information.\n".toList)
  throw status

/-- Reads all of the input. -/
def readInput : ProgramStep (List Char) := do
  let j ← get
  set { j with inputRead := true }
  return if j.inputRead then [] else j.input

/-- The number that is written with decimal digits. -/
def decimal? (cs : List Char) : Option Nat :=
  if !cs.isEmpty && cs.all Char.isDigit then some (numberIn 10 cs) else none

/-- The path that the octets name. -/
def pathOf (cs : List Char) : ProgramStep Path := do
  let here := "/" ++ "/".intercalate (← get).directory
  return if cs.isEmpty then ⟨""⟩ else (⟨here⟩ : Path).join ⟨textOfOctets cs⟩

/-- What is at a path, and its place. -/
def find (cs : List Char) : ProgramStep (Except StorageFault (Place × DiskNode)) := do
  return (← get).disk.find (← pathOf cs)

/-- The content of a file. -/
def readFile (cs : List Char) : ProgramStep (Except StorageFault (List Char)) := do
  return ((← get).disk.read (← pathOf cs)).map octetsOfBytes

/-- As much of the zeros of a device that has no end as a program reads at most. -/
def endlessZeros : Nat := 1048576

/-- The content that an operand stands for. A dash stands for the input. -/
def readOperand (cs : List Char) : ProgramStep (Except StorageFault (List Char)) := do
  if cs = ['-'] || cs = "/dev/stdin".toList || cs = "/dev/fd/0".toList then return .ok (← readInput)
  else if cs = "/dev/zero".toList then return .ok (List.replicate endlessZeros '\x00')
  else readFile cs

/-- The operands, or the input if there are none. -/
def orInput (operands : List (List Char)) : List (List Char) :=
  if operands.isEmpty then [['-']] else operands

/-- The contents of all operands, one behind the other. -/
def readAll (status : Nat) (operands : List (List Char)) : ProgramStep (List Char) := do
  let contents ← (orInput operands).mapM fun operand => do
    match ← readOperand operand with
    | .ok content => return content
    | .error fault =>
      warn (operand ++ ": ".toList ++ fault.reason.toList)
      mark status
      return []
  return contents.flatten

/-- Changes the disk, if that is possible. -/
def change (f : DiskStorage → Except StorageFault DiskStorage) : ProgramStep (Option StorageFault) := do
  match f (← get).disk with
  | .ok disk => modify fun j => { j with disk }; return none
  | .error fault => return some fault

/-- Puts a content into a file, which is made if it is not there. -/
def writeFile (cs content : List Char) : ProgramStep (Option StorageFault) := do
  if cs = "/dev/stdout".toList || cs = "/dev/fd/1".toList then
    out content
    return none
  if cs = "/dev/stderr".toList || cs = "/dev/fd/2".toList then
    err content
    return none
  let path ← pathOf cs
  change fun disk => (disk.writablePlace path).map fun place => disk.fill place (bytesOfOctets content)

/-- A name between quotes, as complaints show it. -/
def quoted (cs : List Char) : List Char := '\'' :: cs ++ ['\'']

/-- A name as complaints show it, with quotes only if it has odd characters. -/
def quotedIfOdd (cs : List Char) : List Char :=
  let plain (c : Char) : Bool :=
    c.isAlphanum || "%+,-./:=@_^~#".toList.contains c || 128 ≤ c.toNat
  if !cs.isEmpty && cs.all plain && cs.head? ≠ some '~' && cs.head? ≠ some '#' then cs else quoted cs

/-- The reason of a fault. -/
def reason (fault : StorageFault) : List Char := fault.reason.toList

/-- An option of a program: its letter, its long name and whether it takes a value. -/
structure Switch where
  letter : Char
  long : String := ""
  takesValue : Bool := false

/-- An option that was given, with its value. -/
abbrev Given := Char × List Char

/-- Reads the options in a word of letters behind a dash. The last may take the next word. -/
def readLetters (status : Nat) (switches : List Switch) : List Char → List (List Char) →
    ProgramStep (List Given × List (List Char))
  | [], rest => return ([], rest)
  | c :: cs, rest => do
    match switches.find? (·.letter = c) with
    | none => misuse status ("invalid option -- ".toList ++ quoted [c])
    | some switch =>
      if switch.takesValue then
        match cs, rest with
        | _ :: _, _ => return ([(c, cs)], rest)
        | [], value :: rest => return ([(c, value)], rest)
        | [], [] => misuse status ("option requires an argument -- ".toList ++ quoted [c])
      else
        let (given, rest) ← readLetters status switches cs rest
        return ((c, []) :: given, rest)

/-- Reads an option with a long name. -/
def readLong (status : Nat) (switches : List Switch) (word : List Char) (rest : List (List Char)) :
    ProgramStep (List Given × List (List Char)) := do
  let name := word.takeWhile (· ≠ '=')
  let value? := if name.length < word.length then some (word.drop (name.length + 1)) else none
  let exact := switches.filter fun s => s.long.toList = name
  let similar := switches.filter fun s => !s.long.isEmpty && name.isPrefixOf s.long.toList
  match if exact.isEmpty then similar else exact with
  | switch :: _ =>
    if switch.takesValue then
      match value?, rest with
      | some value, _ => return ([(switch.letter, value)], rest)
      | none, value :: rest => return ([(switch.letter, value)], rest)
      | none, [] =>
        misuse status ("option '--".toList ++ switch.long.toList ++ "' requires an argument".toList)
    else return ([(switch.letter, [])], rest)
  | [] => misuse status ("unrecognized option '--".toList ++ word ++ ['\''])

/-- Tells options from operands. Options may stand behind operands if `mixed`. -/
def readSwitches (status : Nat) (switches : List Switch) (mixed : Bool) :
    Nat → List (List Char) → ProgramStep (List Given × List (List Char))
  | 0, words => return ([], words)
  | _ + 1, [] => return ([], [])
  | fuel + 1, word :: rest => do
    match word with
    | ['-', '-'] => return ([], rest)
    | '-' :: '-' :: long => do
      let (given, rest) ← readLong status switches long rest
      let (others, operands) ← readSwitches status switches mixed fuel rest
      return (given ++ others, operands)
    | '-' :: c :: cs => do
      let (given, rest) ← readLetters status switches (c :: cs) rest
      let (others, operands) ← readSwitches status switches mixed fuel rest
      return (given ++ others, operands)
    | _ =>
      if mixed then do
        let (given, operands) ← readSwitches status switches mixed fuel rest
        return (given, word :: operands)
      else return ([], word :: rest)

/-- The options and operands among the arguments. Wrong ones end the program with the status. -/
def switches (status : Nat) (known : List Switch) : ProgramStep (List Given × List (List Char)) := do
  let words := (← get).arguments
  readSwitches status known true (words.length + 1) words

/-- Switches without values and long names. -/
def letters (cs : String) : List Switch := cs.toList.map fun letter => { letter }

/-- Switches with values. -/
def valued (cs : String) : List Switch := cs.toList.map fun letter => { letter, takesValue := true }

/-- Whether the option was given. -/
def has (given : List Given) (letter : Char) : Bool := given.any (·.1 = letter)

/-- The value of the option that was given last. -/
def last? (given : List Given) (letter : Char) : Option (List Char) :=
  (given.reverse.find? (·.1 = letter)).map (·.2)

/-- The lines of a text without their ends. -/
def lines (cs : List Char) : List (List Char) :=
  if cs.isEmpty then []
  else
    let pieces := split '\n' cs
    if pieces.getLast? = some [] then pieces.dropLast else pieces

/-- The lines of a text with their ends. -/
def linesWithEnds (cs : List Char) : List (List Char) :=
  let pieces := split '\n' cs
  pieces.dropLast.map (· ++ ['\n']) ++ (pieces.drop (pieces.length - 1)).filter (!·.isEmpty)

/-- Lines with their ends. -/
def unlines (ls : List (List Char)) : List Char := ls.flatMap (· ++ ['\n'])

/-- Puts a text in the place of another one wherever that occurs. -/
def replaceAll (old new : List Char) : Nat → List Char → List Char
  | 0, cs => cs
  | fuel + 1, cs =>
    match cutAt? old cs with
    | some (before, rest) => before ++ new ++ replaceAll old new fuel rest
    | none => cs

/-- Runs a program to its end. -/
def run (program : Program) (j : Job) : Job :=
  match (program.run).run j with
  | (.ok (), j) => j
  | (.error status, j) => { j with status }

end Job

end KeywordIndex.Shell
