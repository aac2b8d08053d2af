import KeywordIndex.Shell.Builtin
import KeywordIndex.Shell.Expansion
import KeywordIndex.Shell.Grammar

namespace KeywordIndex.Shell

/-!
# Texts that are run

A text is read line by line, and the commands of each line are run before the next one is read. Commands
in parentheses and in pipelines are run by copies of the script, of which only the disk, the outputs and
the status are kept.
-/

/-- No loop is run more often. -/
def loopLimit : Nat := 1000000

/-- Takes steps as long as they ask for more. -/
def iterate (step : Session → Session × Bool) : Nat → Session → Session
  | 0, s => s
  | fuel + 1, s =>
    let (s, more) := step s
    if more then iterate step fuel s else s

namespace Session

/-- Reads a text line by line and runs its commands. -/
def runLines (inner : Evaluator) (tested ran : Bool) : Nat → Source → Session → Session
  | 0, _, s => s
  | fuel + 1, source, s =>
    let text := source.rest
    match readLine.run source with
    | .error fault => { s with line := fault.line }.abort ("Syntax error: " ++ fault.message).toList
    | .ok (none, _) => if ran then s else s.finish 0
    | .ok (some command?, source) =>
      let s := { s with
        documents := source.documents ++ s.documents
        nextDocument := source.nextDocument
        lineRead := source.line }
      let source := { source with documents := [] }
      match command? with
      | none => runLines inner tested ran fuel source s
      | some command =>
        let s := if s.isSet .verbose then s.write 2 (text.take (text.length - source.rest.length)) else s
        let s := if s.isSet .noExecution then s else inner.run tested command s
        if s.isGoing then runLines inner tested true fuel source s else s

/-- Runs the commands of a text whose first line has the given number. -/
def runText (inner : Evaluator) (tested : Bool) (line : Nat) (text : List Char) (s : Session) : Session :=
  let after := runLines inner tested false (text.length + 2)
    { rest := text, size := text.length, line, nextDocument := s.nextDocument } s
  { after with lineRead := s.lineRead }

/-- Runs what is to be run at the end. -/
def conclude (inner : Evaluator) (s : Session) : Session :=
  match s.flow, s.traps.lookup "EXIT".toList with
  | .killed, _ | .replaced, _ => s
  | _, some (c :: cs) =>
    let others := s.traps.filter (·.1 ≠ "EXIT".toList)
    let after := runText inner false 1 (c :: cs) { s with flow := .going, traps := others }
    if after.flow = .exiting then after else { after with status := s.status, flow := .exiting }
  | _, _ => s

/-- Runs a copy of the script, of which the world and the status are kept. -/
def inSubshell (inner : Evaluator) (s : Session) (body : Session → Session) : Session :=
  let copy := { s with
    traps := s.traps.filter (·.2.isEmpty)
    loops := 0 }
  let after := conclude inner (body copy)
  let s := { s with world := after.world, status := after.status % 256 }
  if after.flow = .killed then { s with flow := .killed } else s

end Session

end KeywordIndex.Shell
