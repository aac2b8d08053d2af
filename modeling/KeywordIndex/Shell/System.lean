import KeywordIndex.Library.Command
import KeywordIndex.Shell.Evaluation

namespace KeywordIndex.Shell

open Text

/-!
# The system

A system has a disk with its programs on it. A program is started with arguments and an empty input, and
leaves behind what it wrote and the disk as it has changed it.
-/

/-- The directories of every system. -/
def systemDirectories : List Place :=
  [["bin"], ["dev"], ["etc"], ["home"], ["lib"], ["opt"], ["proc"], ["root"], ["run"], ["sbin"], ["sys"],
   ["tmp"], ["usr"], ["usr", "bin"], ["usr", "lib"], ["usr", "local"], ["usr", "local", "bin"],
   ["usr", "sbin"], ["usr", "share"], ["var"], ["var", "tmp"]]

/-- The disk of a system on which nothing has been done. -/
def systemDisk : DiskStorage :=
  let entry (node : DiskNode) (place : Place) : DiskEntry := ⟨place, node⟩
  ⟨systemDirectories.map (entry .directory) ++
    ["null", "stdin", "stdout", "stderr", "zero"].map (fun name => entry .sink ["dev", name]) ++
    [entry (.file (encode "root:x:0:0:root:/root:/bin/bash\n".toList) false) ["etc", "passwd"]] ++
    programNames.flatMap fun name =>
      [entry .program ["usr", "bin", name], entry .program ["bin", name]]⟩

/-- A script before it is started on a disk. Its outputs are the first channels. -/
def Session.onDisk (disk : DiskStorage) : Session where
  self := "sh".toList
  arguments := []
  world := { disk, channels := #[.sink, .pipe [] [], .pipe [] []] }
  descriptors := [(0, 0), (1, 1), (2, 2)]
  bindings :=
    [{ name := "PATH".toList, value := some Session.usualPath, exported := true },
     { name := "HOME".toList, value := some "/root".toList, exported := true },
     { name := "PWD".toList, value := some ['/'], exported := true }]

/-- What a script leaves behind. -/
def Session.toProgramRun (s : Session) : ProgramRun where
  status := s.status
  output := bytesOfOctets (s.waiting 1)
  errors := bytesOfOctets (s.waiting 2)

/-- Starts a program on a disk. -/
def start (disk : DiskStorage) (name : String) (arguments : List String) :
    DiskStorage × Except ProgramFault ProgramRun :=
  let s := Session.onDisk disk
  let octets := octetsOf name
  let words := arguments.map octetsOf
  let ended (after : Session) : DiskStorage × Except ProgramFault ProgramRun :=
    (after.world.disk, .ok after.toProgramRun)
  let path := if octets.contains '/' then octets else (s.programPath? octets).getD []
  match s.meaningOfPath path with
  | .program program _ => ended (s.runProgram (evaluator depthLimit) program octets words)
  | .script path content => ended (s.runFile (evaluator depthLimit) path content words)
  | .unusable _ _ =>
    if !octets.contains '/' then
      (disk, .error (.absent (if 255 < octets.length then .nameTooLong else .noSuchFile)))
    else
      match disk.find ⟨name⟩ with
      | .ok _ => (disk, .error .notPermitted)
      | .error fault => (disk, .error (.absent fault))

/-- The programs of a system with the given disk. -/
def programs (disk : DiskStorage) : Programs := fun name arguments => (start disk name arguments).2

end KeywordIndex.Shell
