import KeywordIndex.Shell.Expansion
import KeywordIndex.Shell.Job

namespace KeywordIndex.Shell

open Text

/-!
# Redirections

A redirection makes a descriptor lead to a file, to a text in the script or to where another descriptor
leads.
-/

namespace Session

/-- The channel of a descriptor. -/
def channel? (s : Session) (descriptor : Nat) : Option Nat := s.descriptors.lookup descriptor

/-- Makes a descriptor lead to a channel. -/
def connect (s : Session) (descriptor number : Nat) : Session :=
  { s with descriptors := (descriptor, number) :: s.descriptors.filter (·.1 ≠ descriptor) }

/-- Makes a descriptor lead nowhere. -/
def disconnect (s : Session) (descriptor : Nat) : Session :=
  { s with descriptors := s.descriptors.filter (·.1 ≠ descriptor) }

/-- Makes a descriptor lead to a new channel. -/
def connectNew (s : Session) (descriptor : Nat) (channel : Channel) : Session :=
  let (number, world) := s.world.addChannel channel
  { s with world }.connect descriptor number

/-- Why a file is not opened. -/
def openReason (creating : Bool) (fault : StorageFault) : List Char :=
  match fault with
  | .noSuchFile | .notDirectory => (if creating then "Directory nonexistent" else "No such file").toList
  | _ => fault.reason.toList

/-- The descriptor that a path names. -/
def namedDescriptor? (target : List Char) : Option Nat :=
  match String.ofList target with
  | "/dev/stdin" => some 0
  | "/dev/stdout" => some 1
  | "/dev/stderr" => some 2
  | _ => (after? "/dev/fd/".toList target).bind Job.decimal?

/-- Opens a file for a descriptor, or says why not. -/
def openFile (s : Session) (descriptor : Nat) (stream : Stream) (target : List Char) :
    Except (List Char) Session :=
  let path := s.pathOf target
  match (namedDescriptor? target).bind s.channel? with
  | some number => .ok (s.connect descriptor number)
  | none =>
  let channelOf (place : Place) (node : Option DiskNode) (appending : Bool) : Channel :=
    match node with
    | some .sink => .sink
    | _ => .file place 0 appending
  match stream with
  | .read =>
    match s.world.disk.find path with
    | .ok (place, node) => .ok (s.connectNew descriptor (channelOf place (some node) false))
    | .error fault => .error ("cannot open ".toList ++ target ++ ": ".toList ++ openReason false fault)
  | _ =>
    match s.world.disk.writablePlace path with
    | .error fault => .error ("cannot create ".toList ++ target ++ ": ".toList ++ openReason true fault)
    | .ok place =>
      let node := s.world.disk.at? place
      let isFile := match node with
        | some (.file _ _) => true
        | _ => false
      if stream == .write && s.isSet .noClobber && isFile then
        .error ("cannot create ".toList ++ target ++ ": File exists".toList)
      else
        let disk :=
          if stream == .write || node.isNone then s.world.disk.fill place [] else s.world.disk
        let s := { s with world := { s.world with disk } }
        .ok (s.connectNew descriptor (channelOf place node (stream == .append)))

/-- Makes a descriptor lead where another one leads. A digit names it. -/
def duplicate (s : Session) (descriptor : Nat) (target : List Char) : Except (List Char) Session :=
  match target with
  | ['-'] => .ok (s.disconnect descriptor)
  | [c] =>
    if c.isDigit then
      match s.channel? (numberIn 10 target) with
      | some number => .ok (s.connect descriptor number)
      | none => .error (target ++ ": Bad file descriptor".toList)
    else .ok ({ s with line := s.lineRead }.abort "Syntax error: Bad fd number".toList)
  | _ => .ok ({ s with line := s.lineRead }.abort "Syntax error: Bad fd number".toList)

/-- Carries out redirections in order, and says whether all went well. -/
def redirect (inner : Evaluator) : List Redirection → Session → Session × Bool
  | [], s => (s, true)
  | r :: rest, s =>
    let (s, opened) : Session × Except (List Char) Session :=
      match r with
      | .document descriptor number =>
        let text := ((s.documents.find? (·.number = number)).map (·.text)).getD []
        let (s, content) := expandText inner text s
        (s, .ok (s.connectNew descriptor (.pipe content [])))
      | .stream descriptor stream target =>
        let (s, text) := expandText inner target s
        (s, if stream == .duplicate then s.duplicate descriptor text
          else s.openFile descriptor stream text)
    if !s.isGoing then (s, false)
    else
      match opened with
      | .ok s => if s.isGoing then redirect inner rest s else (s, false)
      | .error message => (s.warn message, false)

end Session

end KeywordIndex.Shell
