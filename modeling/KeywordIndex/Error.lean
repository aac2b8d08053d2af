import KeywordIndex.Glob.Pattern
import KeywordIndex.Json.Fault
import KeywordIndex.Storage.Basic
import KeywordIndex.Xml.Fault

namespace KeywordIndex

/-!
# Errors

Errors arise only where files are read and texts are decoded. Everything else answers with what it has.
-/

/-- Why an operation has no answer. -/
inductive Error where
  | unreadable (path : Path) (fault : StorageFault)
  | tooLarge (path : Path) (size limit : Nat)
  | xml (fault : Xml.Fault)
  | json (fault : Json.Fault)
  | pattern (fault : Glob.Fault)
  | generator (message : String)
  deriving DecidableEq

/-- The reported text. -/
def Error.message : Error → String
  | unreadable path fault => s!"failed to read '{path.text}': {fault.message}"
  | tooLarge path size limit => s!"'{path.text}' is {size} bytes, the limit is {limit}"
  | xml fault => "invalid libdoc xml: " ++ fault.message
  | json fault => "invalid generator output: " ++ fault.message
  | pattern fault => "invalid exclude pattern: " ++ fault.message
  | generator message => "documentation generator failed: " ++ message

end KeywordIndex
