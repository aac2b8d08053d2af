import KeywordIndex.Error
import KeywordIndex.Library.Acquisition
import KeywordIndex.Storage.Basic
import KeywordIndex.Text.Utf8

namespace KeywordIndex

open Text

/-!
# The generator as a program

A generator may be a program of the system. It is given a script, the wanted libraries, the directories
to search and the directory to write to, and answers on its two outputs.
-/

/-- Why a program was not run. -/
inductive ProgramFault where
  /-- There is nothing to be run by that name. -/
  | absent (fault : StorageFault)
  /-- What goes by that name is no program. -/
  | notPermitted
  /-- Arguments of programs end at a null character and cannot hold one. -/
  | nullCharacter
  deriving DecidableEq, Repr

/-- The reported text. -/
def ProgramFault.message : ProgramFault → String
  | absent fault => fault.message
  | notPermitted => "Permission denied (os error 13)"
  | nullCharacter => "nul byte found in provided data"

/-- What a program left behind when it ended. -/
structure ProgramRun where
  status : Nat
  output : Bytes
  errors : Bytes
  deriving DecidableEq

/-- What a generator has to say is what the program wrote, its errors last. -/
def ProgramRun.toOutput (run : ProgramRun) : GeneratorOutput where
  exitOk := run.status == 0
  text := String.ofList (decode run.output ++ decode run.errors)

/-- The programs of a system, by their names and arguments. -/
abbrev Programs := String → List String → Except ProgramFault ProgramRun

namespace GeneratorRequest

/-- The arguments of a generator that is a script. -/
def arguments (request : GeneratorRequest) (script : Path) : List String :=
  [script.text, ",".intercalate request.names, ",".intercalate request.modulePaths,
    request.outputDirectory.text]

/-- Runs the executable of a request on a script. -/
def launch (request : GeneratorRequest) (script : Path) (programs : Programs) :
    Except Error GeneratorOutput :=
  let words := request.executable :: request.arguments script
  let run :=
    if words.any fun w => w.toList.contains '\x00' then .error .nullCharacter
    else programs request.executable (request.arguments script)
  match run with
  | .ok run => .ok run.toOutput
  | .error fault =>
    .error (.generator s!"Error occurred running '{request.executable}': '{fault.message}'")

end GeneratorRequest

end KeywordIndex
