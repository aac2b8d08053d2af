import KeywordIndex.Json.Decode
import KeywordIndex.Path.Basic

namespace KeywordIndex

open Json

/-!
# Libraries and environments

What the documentation generator reports: for each library whether its documentation could be generated
and where it is, and for itself the environment in which it ran.
-/

/-- How the documentation of a library came out. -/
inductive LibraryStatus where
  | success
  | error
  | pending
  deriving DecidableEq, Repr

/-- A library with its documentation. -/
structure LibraryEntry where
  name : String
  status : LibraryStatus
  /-- Whether the document is one that was there before the generator ran. -/
  isFallback : Bool := false
  message : Option String := none
  document : Option Path := none
  source : Option Path := none
  deriving DecidableEq

namespace LibraryEntry

/-- A library that failed. -/
def failed (name message : String) : LibraryEntry :=
  { name := name, status := .error, message := some message }

/-- A library whose document was there before. -/
def fallback (name : String) (document : Path) : LibraryEntry :=
  { name := name, status := .success, isFallback := true, document := some document }

/-- Whether the library has documentation. -/
def isSuccess (e : LibraryEntry) : Bool := e.status == .success

/-- Whether the library failed. -/
def isError (e : LibraryEntry) : Bool := e.status == .error

/-- How a library is given. -/
def form : RecordForm LibraryEntry where
  title := "struct LibraryEntry"
  fields :=
    [{ name := "name", required := true
       set := fun e node => (Decoder.string node).map fun v => { e with name := v } },
      { name := "status", required := true
        set := fun e node =>
          (Decoder.oneOf
            [("success", LibraryStatus.success), ("error", .error), ("pending", .pending)] node).map
            fun v => { e with status := v } },
      { name := "fallback"
        set := fun e node => (Decoder.bool node).map fun v => { e with isFallback := v } },
      { name := "message"
        set := fun e node => (Decoder.string.optional node).map fun v => { e with message := v } },
      { name := "documentationPath", otherName := some "xmlLibdocPath"
        set := fun e node =>
          (Decoder.path.optional node).map fun v => { e with document := v.map Path.mk } },
      { name := "sourcePath"
        set := fun e node =>
          (Decoder.path.optional node).map fun v => { e with source := v.map Path.mk } }]
  surplus := fun length => .wrongLength length "fewer elements in array"

/-- Takes a library from a tree. -/
def decoder : Decoder LibraryEntry := form.decoder { name := "", status := .error }

end LibraryEntry

/-- The text of what is not known before the first run. -/
def notProcessed : String := "Not processed yet"

/-- The text of what is not known after a failed run. -/
def notAvailable : String := "n/a"

/-- The environment in which the generator ran. -/
structure Environment where
  isSuccess : Bool := false
  message : String := notProcessed
  executable : String := notProcessed
  interpreterVersion : String := notProcessed
  platform : String := notProcessed
  modulePaths : List String := []
  pythonPath : String := notProcessed
  jythonPath : String := notProcessed
  classPath : String := notProcessed
  ironpythonPath : String := notProcessed
  deriving DecidableEq

namespace Environment

/-- The environment of a failed run: only the executable is known. -/
def failed (message executable : String) : Environment where
  message := message
  executable := executable
  interpreterVersion := notAvailable
  platform := notAvailable
  pythonPath := notAvailable
  jythonPath := notAvailable
  classPath := notAvailable
  ironpythonPath := notAvailable

/-- The search paths by the names of their variables. -/
def pathVariables (e : Environment) : List (String × String) :=
  [("PYTHONPATH", e.pythonPath), ("JYTHONPATH", e.jythonPath), ("CLASSPATH", e.classPath),
    ("IRONPYTHONPATH", e.ironpythonPath)]

/-- A field that holds a text. -/
def textField (name : String) (otherName : Option String)
    (set : Environment → String → Environment) : RecordField Environment where
  name := name
  otherName := otherName
  set := fun e node => (Decoder.string node).map (set e)

/-- How an environment is given. -/
def form : RecordForm Environment where
  title := "struct Environment"
  fields :=
    [{ name := "status"
       set := fun e node =>
         (Decoder.oneOf [("success", true), ("error", false)] node).map
           fun v => { e with isSuccess := v } },
      textField "message" none fun e v => { e with message := v },
      textField "executable" (some "pythonExecutable") fun e v => { e with executable := v },
      textField "interpreterVersion" (some "pythonVersion") fun e v =>
        { e with interpreterVersion := v },
      textField "platform" none fun e v => { e with platform := v },
      { name := "moduleSearchPath"
        set := fun e node => (Decoder.string.list node).map fun v => { e with modulePaths := v } },
      textField "pythonPath" none fun e v => { e with pythonPath := v },
      textField "jythonPath" none fun e v => { e with jythonPath := v },
      textField "classPath" none fun e v => { e with classPath := v },
      textField "ironpythonPath" none fun e v => { e with ironpythonPath := v }]
  surplus := fun _ => .trailingText

/-- Takes an environment from a tree. -/
def decoder : Decoder Environment := form.decoder {}

end Environment

end KeywordIndex
