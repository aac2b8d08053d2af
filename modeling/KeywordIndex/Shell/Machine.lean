import KeywordIndex.Shell.Calculation
import KeywordIndex.Storage.Disk

namespace KeywordIndex.Shell

open Text

/-!
# Scripts that run

A script that runs has parameters, functions and descriptors of its own, and shares the disk and the
channels behind its descriptors with the scripts and programs that it starts.
-/

/-- One character for each octet of the UTF-8 form. -/
def octetsOf (s : String) : List Char := (encode s.toList).map fun b => Char.ofNat b.toNat

/-- The octets of a content as characters. -/
def octetsOfBytes (bytes : Bytes) : List Char := bytes.map fun b => Char.ofNat b.toNat

/-- Characters as the octets that they stand for. -/
def bytesOfOctets (cs : List Char) : Bytes := cs.map fun c => UInt8.ofNat c.toNat

/-- The text whose UTF-8 form the octets are. -/
def textOfOctets (cs : List Char) : String := String.ofList (decode (bytesOfOctets cs))

/-- The order of texts octet by octet. -/
def precedes : List Char → List Char → Bool
  | [], _ => true
  | _ :: _, [] => false
  | a :: as, b :: bs => a < b || (a == b && precedes as bs)

/-- What a descriptor leads to. -/
inductive Channel where
  /-- What was written waits to be read: the part that comes first, and then pieces, last first. -/
  | pipe (content : List Char) (pieces : List (List Char))
  /-- A file, read and written at an offset, or always written at its end if `appending`. -/
  | file (place : Place) (offset : Nat) (appending : Bool)
  /-- Swallows all and holds nothing. -/
  | sink

/-- What scripts and programs share. -/
structure World where
  disk : DiskStorage
  channels : Array Channel := #[]

namespace World

/-- Adds a channel, and gives its number. -/
def addChannel (w : World) (channel : Channel) : Nat × World :=
  (w.channels.size, { w with channels := w.channels.push channel })

/-- The content of the file at a place. -/
def contentAt (w : World) (place : Place) : List Char :=
  match w.disk.at? place with
  | some (.file content _) => octetsOfBytes content
  | _ => []

/-- Writes to a channel. -/
def write (w : World) (number : Nat) (cs : List Char) : World :=
  match w.channels[number]? with
  | some (.pipe content pieces) =>
    { w with channels := w.channels.modify number fun _ => .pipe content (cs :: pieces) }
  | some (.file place offset appending) =>
    if cs.isEmpty then w
    else
      match w.disk.at? place with
      | some (.file _ _) =>
        let before := w.contentAt place
        let start := if appending then before.length else offset
        let gap := List.replicate (start - before.length) '\x00'
        let after := before.take start ++ gap ++ cs ++ before.drop (start + cs.length)
        ⟨w.disk.fill place (bytesOfOctets after),
          w.channels.modify number fun _ => .file place (start + cs.length) appending⟩
      | _ => w
  | _ => w

/-- What can be read from a channel. -/
def waiting (w : World) (number : Nat) : List Char :=
  match w.channels[number]? with
  | some (.pipe content pieces) => content ++ pieces.reverse.flatten
  | some (.file place offset _) => (w.contentAt place).drop offset
  | _ => []

/-- Passes over octets that were read from a channel. -/
def advance (w : World) (number count : Nat) : World :=
  match w.channels[number]? with
  | some (.pipe _ _) =>
    let rest := (w.waiting number).drop count
    { w with channels := w.channels.modify number fun _ => .pipe rest [] }
  | some (.file place offset appending) =>
    { w with channels := w.channels.modify number fun _ => .file place (offset + count) appending }
  | _ => w

end World

/-- A parameter with a name. -/
structure Binding where
  name : List Char
  value : Option (List Char)
  exported : Bool := false
  readOnly : Bool := false

/-- How a script goes on behind a command. -/
inductive Flow where
  | going
  /-- Leaves that many loops. -/
  | breaking (loops : Nat)
  /-- Leaves all but one of that many loops, and goes on with the last. -/
  | continuing (loops : Nat)
  | returning
  | exiting
  /-- The script ends at once, as another program takes its place. -/
  | replaced
  /-- A signal ends the script and all that it is a part of. -/
  | killed
  deriving DecidableEq, Repr

/-- An option of a script. -/
inductive Setting where
  | exitOnError
  | noPatterns
  | ignoreEnd
  | interactive
  | monitor
  | noExecution
  | standardInput
  | trace
  | verbose
  | viEditing
  | emacsEditing
  | noClobber
  | exportAll
  | notify
  | noUnset
  | privileged
  | noLog
  | debug
  deriving DecidableEq, Repr

namespace Setting

/-- All options, in the order in which they are listed. -/
def all : List Setting :=
  [exitOnError, noPatterns, ignoreEnd, interactive, monitor, noExecution, standardInput, trace, verbose,
   viEditing, emacsEditing, noClobber, exportAll, notify, noUnset, privileged, noLog, debug]

/-- The name of an option, and its letter if it has one. -/
def label : Setting → String × Option Char
  | exitOnError => ("errexit", some 'e')
  | noPatterns => ("noglob", some 'f')
  | ignoreEnd => ("ignoreeof", some 'I')
  | interactive => ("interactive", some 'i')
  | monitor => ("monitor", some 'm')
  | noExecution => ("noexec", some 'n')
  | standardInput => ("stdin", some 's')
  | trace => ("xtrace", some 'x')
  | verbose => ("verbose", some 'v')
  | viEditing => ("vi", some 'V')
  | emacsEditing => ("emacs", some 'E')
  | noClobber => ("noclobber", some 'C')
  | exportAll => ("allexport", some 'a')
  | notify => ("notify", some 'b')
  | noUnset => ("nounset", some 'u')
  | privileged => ("privileged", some 'p')
  | noLog => ("nolog", none)
  | debug => ("debug", none)

/-- The option with the letter. -/
def ofLetter? (letter : Char) : Option Setting := all.find? (·.label.2 = some letter)

/-- The option with the name. -/
def ofName? (name : List Char) : Option Setting := all.find? (·.label.1.toList = name)

end Setting

/-- A script while it runs. -/
structure Session where
  /-- The name of the script. -/
  self : List Char
  arguments : List (List Char)
  world : World
  bindings : List Binding := []
  functions : List (List Char × Command) := []
  documents : List Document := []
  /-- The parameters of functions, with what they hide. -/
  hidden : List (List Char × Option Binding) := []
  directory : Place := []
  /-- The channels of the open descriptors. -/
  descriptors : List (Nat × Nat) := []
  /-- The options that are set. -/
  settings : List Setting := []
  traps : List (List Char × List Char) := []
  /-- The line of the running command. -/
  line : Nat := 1
  /-- The line up to which commands have been read. -/
  lineRead : Nat := 1
  /-- What complaints of the running command begin with. -/
  commandName : List Char := []
  status : Nat := 0
  /-- Something was written to a descriptor that leads nowhere. -/
  outputLost : Bool := false
  /-- The status of the last command whose output took the place of a parameter. -/
  outputStatus : Nat := 0
  flow : Flow := .going
  /-- The loops around the running command. -/
  loops : Nat := 0
  /-- The functions that are running. -/
  functionDepth : Nat := 0
  /-- The commands that were run in the background, with the status of each, the last first. -/
  backgrounds : List (Nat × Nat) := []
  nextDocument : Nat := 0
  /-- The permissions that new files do not get. -/
  mask : Nat := 18
  /-- The place of `getopts` in its word. -/
  optionOffset : Nat := 0

namespace Session

/-- Whether the next command is run. -/
def isGoing (s : Session) : Bool := s.flow == .going

/-- Whether the option is set. -/
def isSet (s : Session) (setting : Setting) : Bool := s.settings.contains setting

/-- Writes to a descriptor. -/
def write (s : Session) (descriptor : Nat) (cs : List Char) : Session :=
  match s.descriptors.lookup descriptor with
  | some number => { s with world := s.world.write number cs }
  | none => if cs.isEmpty then s else { s with outputLost := true }

/-- What can be read from a descriptor. -/
def waiting (s : Session) (descriptor : Nat) : List Char :=
  match s.descriptors.lookup descriptor with
  | some number => s.world.waiting number
  | none => []

/-- Passes over octets that were read from a descriptor. -/
def advance (s : Session) (descriptor count : Nat) : Session :=
  match s.descriptors.lookup descriptor with
  | some number => { s with world := s.world.advance number count }
  | none => s

/-- What a complaint begins with. -/
def complaintHead (s : Session) : List Char :=
  let head := s.self ++ s!": {s.line}: ".toList
  if s.commandName.isEmpty then head else head ++ s.commandName ++ ": ".toList

/-- Complains. -/
def warn (s : Session) (message : List Char) : Session :=
  s.write 2 (s.complaintHead ++ message ++ ['\n'])

/-- Complains, and ends the script. -/
def abort (s : Session) (message : List Char) : Session :=
  { s.warn message with flow := .exiting, status := 2 }

/-- The parameter with the given name. -/
def binding? (s : Session) (name : List Char) : Option Binding := s.bindings.find? (·.name = name)

/-- The value of the parameter with the given name. -/
def value? (s : Session) (name : List Char) : Option (List Char) :=
  (s.binding? name).bind (·.value)

/-- Changes a parameter, or makes one. -/
def bind (s : Session) (b : Binding) : Session :=
  if s.bindings.any (·.name = b.name) then
    { s with bindings := s.bindings.map fun old => if old.name = b.name then b else old }
  else { s with bindings := s.bindings ++ [b] }

/-- Takes a parameter away. -/
def unbind (s : Session) (name : List Char) : Session :=
  { s with bindings := s.bindings.filter (·.name ≠ name) }

/-- Gives a parameter a value. Some parameters keep theirs, which ends the script. -/
def assign (s : Session) (name value : List Char) : Session :=
  match s.binding? name with
  | some b =>
    if b.readOnly then s.abort (name ++ ": is read only".toList)
    else s.bind { b with value, exported := b.exported || s.isSet .exportAll }
  | none => s.bind { name, value, exported := s.isSet .exportAll }

/-- The separators at which values are split. -/
def separators (s : Session) : List Char := (s.value? "IFS".toList).getD [' ', '\t', '\n']

/-- What stands between arguments that become one text. -/
def joint (s : Session) : List Char :=
  match s.value? "IFS".toList with
  | some cs => cs.take 1
  | none => [' ']

/-- The letters of the options that are set. -/
def settingLetters (s : Session) : List Char :=
  (Setting.all.filter (s.settings.contains ·)).filterMap (·.label.2)

/-- Sets an option, or takes it back. -/
def change (s : Session) (setting : Setting) (on : Bool) : Session :=
  let others := s.settings.filter (· ≠ setting)
  { s with settings := if on then setting :: others else others }

/-- The number by which a process goes. All scripts run in one. -/
def processNumber : Nat := 1

/-- The value of a parameter, named or not, except for all arguments at once. -/
def parameter? (s : Session) (name : List Char) : Option (List Char) :=
  match name with
  | ['#'] => some (toString s.arguments.length).toList
  | ['?'] => some (toString s.status).toList
  | ['$'] => some (toString processNumber).toList
  | ['!'] => s.backgrounds.head?.map fun (n, _) => (toString n).toList
  | ['-'] => some s.settingLetters
  | _ =>
    if name.all Char.isDigit then
      match (String.ofList name).toNat?.getD 0 with
      | 0 => some s.self
      | n + 1 => s.arguments[n]?
    else s.value? name

/-- The path that the octets name. -/
def pathOf (s : Session) (cs : List Char) : Path :=
  let here := "/" ++ "/".intercalate s.directory
  if cs.isEmpty then ⟨""⟩ else (⟨here⟩ : Path).join ⟨textOfOctets cs⟩

end Session

end KeywordIndex.Shell
