import KeywordIndex.Shell.Builtin
import KeywordIndex.Shell.Grammar

namespace KeywordIndex.Shell

open Text

/-!
# Names of commands

A name that is no function and no command of the script stands for a program, or for a file with commands.
Programs are looked for in the directories of a parameter.
-/

namespace Session

/-- What a name of a command stands for. -/
inductive Meaning where
  /-- A program of the system. -/
  | program (name path : List Char)
  /-- A file with commands. -/
  | script (path content : List Char)
  /-- Nothing that can be run. -/
  | unusable (status : Nat) (reason : List Char)

/-- What is run by a path. -/
def meaningOfPath (s : Session) (path : List Char) : Meaning :=
  match s.world.disk.find (s.pathOf path) with
  | .ok (place, .program) => .program (octetsOf (place.getLast?.getD "")) path
  | .ok (_, .file content true) => .script path (octetsOfBytes content)
  | .ok _ => .unusable 126 "Permission denied".toList
  | .error .noSuchFile | .error .notDirectory => .unusable 127 "not found".toList
  | .error .nameTooLong => .unusable 127 "File name too long".toList
  | .error fault => .unusable 126 fault.reason.toList

/-- The directories in which programs are looked for. -/
def searchPath (s : Session) : List (List Char) :=
  match s.value? "PATH".toList with
  | some cs => split ':' cs
  | none => []

/-- The path of a program with the given name. -/
def programPath? (s : Session) (name : List Char) : Option (List Char) :=
  if name.isEmpty then none
  else
    let paths := s.searchPath.map fun directory =>
      if directory.isEmpty then name else directory ++ '/' :: name
    paths.find? fun path =>
      match s.meaningOfPath path with
      | .program _ _ | .script _ _ => true
      | .unusable _ _ => false

/-- What is run by a name that is neither a function nor a command of the script. -/
def meaningOf (s : Session) (name : List Char) : Meaning :=
  if name.isEmpty then .unusable 127 "Permission denied".toList
  else if name.contains '/' then s.meaningOfPath name
  else
    match s.programPath? name with
    | some path =>
      match s.meaningOfPath path with
      | .program program _ => .program program name
      | other => other
    | none => .unusable 127 "not found".toList

/-- Says what a name stands for. -/
def describe (s : Session) (name : List Char) (short : Bool) : Session :=
  let say (long brief : List Char) : Session := s.write 1 ((if short then brief else long) ++ ['\n'])
  if (keywords.any (·.text.toList = name)) then say (name ++ " is a shell keyword".toList) name
  else if (s.functions.lookup name).isSome then say (name ++ " is a shell function".toList) name
  else if String.ofList name ∈ specialBuiltins then
    say (name ++ " is a special shell builtin".toList) name
  else if isBuiltin name then say (name ++ " is a shell builtin".toList) name
  else
    let absent : Session :=
      (if short then s else s.write 1 (name ++ ": not found\n".toList)).finish 127
    if name.contains '/' then
      match s.meaningOfPath name with
      | .unusable _ _ => absent
      | _ => say (name ++ " is ".toList ++ name) name
    else
      match s.programPath? name with
      | some path => say (name ++ " is ".toList ++ path) path
      | none => absent

/-- Shows where programs are found. -/
def locate (s : Session) (names : List (List Char)) : Session :=
  names.foldl
    (fun s name =>
      let path := if name.contains '/' then
          match s.meaningOfPath name with
          | .unusable _ _ => none
          | _ => some name
        else s.programPath? name
      match path with
      | some path => s.write 1 (path ++ ['\n'])
      | none => s.finish 1)
    (s.finish 0)

end Session

end KeywordIndex.Shell
