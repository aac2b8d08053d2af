import KeywordIndex.Library.Entry
import KeywordIndex.Text.Blank

namespace KeywordIndex

open Json

/-!
# Acquisition

A documentation generator is asked for the documentation of some libraries. It answers with a JSON
object, and every way in which that can go wrong makes an error of each requested library.
-/

/-- What is asked of a generator. -/
structure GeneratorRequest where
  executable : String
  names : List String
  modulePaths : List String
  outputDirectory : Path
  deriving DecidableEq

/-- What a run of the generator left behind. -/
structure GeneratorOutput where
  exitOk : Bool
  text : String
  deriving DecidableEq

/-- What came of a request. -/
structure Acquisition where
  libraries : List LibraryEntry
  environment : Environment
  deriving DecidableEq

namespace Acquisition

/-- Every requested library failed for the same reason. -/
def failed (request : GeneratorRequest) (message : String) : Acquisition where
  libraries := request.names.map fun name => .failed name message
  environment := .failed message request.executable

end Acquisition

/-- A report of the generator, as it is written. -/
structure GeneratorReport where
  libraries : List (String × LibraryEntry) := []
  environment : Option Environment := none

/-- Puts a value in the place of the one with its name, or last. -/
def putNamed {α : Type} (name : String) (value : α) : List (String × α) → List (String × α)
  | [] => [(name, value)]
  | (other, v) :: rest =>
    if other = name then (other, value) :: rest else (other, v) :: putNamed name value rest

namespace GeneratorReport

/-- How a report is given. Of libraries with one name, the last counts in the place of the first. -/
def form : RecordForm GeneratorReport where
  title := "struct GeneratorOutput"
  fields :=
    [{ name := "libraries"
       set := fun r node =>
         (Decoder.map LibraryEntry.decoder node).map fun found =>
           { r with libraries := found.foldl (fun kept (name, e) => putNamed name e kept) [] } },
      { name := "environment"
        set := fun r node =>
          (Environment.decoder.optional node).map fun v => { r with environment := v } }]
  surplus := fun _ => .trailingText

/-- Takes a report from a tree. -/
def decoder : Decoder GeneratorReport := form.decoder {}

end GeneratorReport

namespace GeneratorOutput

/-- The report in an output, or the message for every requested library. -/
def report (output : GeneratorOutput) : Except String GeneratorReport :=
  if (Text.trim output.text.toList).isEmpty then
    .error "No response received from documentation generator"
  else if !output.exitOk then .error output.text
  else
    match GeneratorReport.decoder.read output.text.toList with
    | .ok report => .ok report
    | .error _ => .error output.text

end GeneratorOutput

/-- The environment of a successful run. A missing executable is that of the request. -/
def Environment.ofReport (executable : String) (environment? : Option Environment) : Environment :=
  match environment? with
  | none => .failed "Environment information not available" executable
  | some e =>
    let known := !e.executable.isEmpty && e.executable != notProcessed
    { e with
      isSuccess := true
      message := ""
      executable := if known then e.executable else executable }

namespace GeneratorRequest

/-- What comes of a request that no generator can serve. -/
def refusal? (request : GeneratorRequest) : Option Acquisition :=
  if (Text.trim request.executable.toList).isEmpty then
    some (.failed request "Bad arguments: executable missing")
  else if request.outputDirectory.text.isEmpty then
    some (.failed request "Bad arguments: output directory missing")
  else none

/-- What comes of a request whose run ended with the given output, or did not take place for the given
reason. -/
def conclude (request : GeneratorRequest) (run : Except String GeneratorOutput) : Acquisition :=
  match run with
  | .error message => .failed request message
  | .ok output =>
    match output.report with
    | .error message => .failed request message
    | .ok report =>
      ⟨report.libraries.map (·.2), .ofReport request.executable report.environment⟩

/-- Runs the generator on a request, unless that is refused. -/
def acquire (request : GeneratorRequest)
    (run : GeneratorRequest → Except String GeneratorOutput) : Acquisition :=
  match request.refusal? with
  | some refusal => refusal
  | none => request.conclude (run request)

end GeneratorRequest

end KeywordIndex
