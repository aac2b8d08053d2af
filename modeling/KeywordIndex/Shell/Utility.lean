import KeywordIndex.Shell.Utility.Contents
import KeywordIndex.Shell.Utility.Edit
import KeywordIndex.Shell.Utility.Files
import KeywordIndex.Shell.Utility.Plain
import KeywordIndex.Shell.Utility.Search
import KeywordIndex.Shell.Utility.Words

namespace KeywordIndex.Shell

open Utility

/-!
# Programs of the system

The programs by their names.
-/

/-- The programs that run no others. -/
def utilities : List (String × Program) :=
  [("base64", Utility.base64), ("basename", Utility.basename), ("cat", Utility.cat),
   ("chmod", Utility.chmod), ("cmp", Utility.cmp), ("cp", Utility.cp), ("cut", Utility.cut),
   ("dirname", Utility.dirname), ("echo", Utility.echo), ("egrep", Utility.grep true false),
   ("expr", Utility.expr), ("false", ends 1), ("fgrep", Utility.grep false true),
   ("find", Utility.find), ("fold", Utility.fold), ("grep", Utility.grep false false),
   ("head", Utility.head), ("id", Utility.id), ("ls", Utility.ls), ("mkdir", Utility.mkdir),
   ("mktemp", Utility.mktemp), ("mv", Utility.mv), ("nl", Utility.nl), ("paste", Utility.paste),
   ("printf", Utility.printf), ("readlink", Utility.realpath), ("realpath", Utility.realpath),
   ("rev", Utility.rev), ("rm", Utility.rm), ("rmdir", Utility.rmdir), ("sed", Utility.sed),
   ("seq", Utility.seq), ("sleep", ends 0), ("sort", Utility.sort), ("sync", ends 0),
   ("tac", Utility.tac), ("tail", Utility.tail), ("tee", Utility.tee), ("touch", Utility.touch),
   ("tr", Utility.tr), ("true", ends 0), ("uname", Utility.uname), ("uniq", Utility.uniq),
   ("wc", Utility.wc), ("whoami", writes "root\n"), ("yes", Utility.yes)]

/-- The program with the name. -/
def utility? (name : String) : Option Program := utilities.lookup name

/-- The programs that run others or show what they are given by the script. -/
def runningPrograms : List String :=
  ["[", "bash", "dash", "env", "nice", "nohup", "printenv", "pwd", "sh", "test", "timeout", "which",
   "xargs"]

/-- The names of all programs. -/
def programNames : List String := utilities.map (·.1) ++ runningPrograms

end KeywordIndex.Shell
