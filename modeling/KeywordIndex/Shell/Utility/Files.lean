import KeywordIndex.Shell.Job

namespace KeywordIndex.Shell.Utility

open KeywordIndex.Shell.Job Text

/-!
# Programs for files and directories

Programs that make, copy, move and remove what is on the disk. Each of them goes on with its other
operands when one of them cannot be done.
-/

/-- A complaint about an operand, after which the program goes on. -/
def objection (status : Nat) (lead : String) (operand : List Char) (reason : List Char) :
    ProgramStep Unit := do
  warn (lead.toList ++ quoted operand ++ ": ".toList ++ reason)
  mark status

/-- A complaint about a fault, after which the program goes on. -/
def object (status : Nat) (lead : String) (operand : List Char) : Option StorageFault → ProgramStep Unit
  | some fault => objection status lead operand (reason fault)
  | none => return

/-- An operand without the slashes at its end. -/
def withoutSlashes (operand : List Char) : List Char :=
  match (operand.reverse.dropWhile (· == '/')).reverse with
  | [] => operand.take 1
  | kept => kept

/-- An operand and the directories that it names on its way, from the outermost. -/
def leadingPaths (operand : List Char) : List (List Char) :=
  let ends := (List.range operand.length).filter fun n =>
    0 < n && operand[n]? == some '/' && operand[n - 1]? ≠ some '/'
  let trimmed := withoutSlashes operand
  (ends.map fun n => operand.take n).filter (· ≠ trimmed) ++ [trimmed]

/-- Makes directories. -/
def mkdir : Program := do
  let (given, operands) ← switches 1
    [⟨'p', "parents", false⟩, ⟨'v', "verbose", false⟩, ⟨'m', "mode", true⟩]
  if operands.isEmpty then misuse 1 "missing operand".toList
  let make (path : List Char) : ProgramStep (Option StorageFault) := do
    let target ← pathOf path
    let fault ← change (·.makeDirectory target)
    if fault.isNone && has given 'v' then
      out ((← get).name ++ ": created directory ".toList ++ quoted path ++ ['\n'])
    return fault
  let rec makeAll : List (List Char) → ProgramStep Unit
    | [] => return
    | path :: rest => do
      match ← find path with
      | .ok (_, .directory) => makeAll rest
      | .ok _ =>
        objection 1 "cannot create directory " path
          (reason (if rest.isEmpty then .alreadyExists else .notDirectory))
      | .error _ =>
        match ← make path with
        | none => makeAll rest
        | some fault => object 1 "cannot create directory " path (some fault)
  operands.forM fun operand => do
    if has given 'p' && !operand.isEmpty then makeAll (leadingPaths operand)
    else object 1 "cannot create directory " operand (← make operand)

/-- What keeps a directory from being removed. -/
def removalFault (disk : DiskStorage) : Place × DiskNode → Option StorageFault
  | (place, .directory) => if (disk.children place).isEmpty then none else some .notEmpty
  | _ => some .notDirectory

/-- Removes empty directories. -/
def rmdir : Program := do
  let (given, operands) ← switches 1 [⟨'p', "parents", false⟩, ⟨'v', "verbose", false⟩]
  if operands.isEmpty then misuse 1 "missing operand".toList
  let remove (operand : List Char) : ProgramStep Bool := do
    match ← find operand with
    | .error fault => object 1 "failed to remove " operand (some fault); return false
    | .ok found =>
      match removalFault (← get).disk found with
      | some fault => object 1 "failed to remove " operand (some fault); return false
      | none =>
        discard (change fun disk => .ok (disk.remove found.1))
        return true
  operands.forM fun operand => do
    let paths := if has given 'p' then (leadingPaths operand).reverse else [operand]
    discard <| paths.foldlM (fun going path => if going then remove path else return false) true

/-- Takes a place away with all that is in it. -/
def removeAll (disk : DiskStorage) (place : Place) : DiskStorage :=
  ⟨disk.entries.filter fun entry => !place.isPrefixOf entry.place⟩

/-- Removes files, and directories with all that is in them if asked to. -/
def rm : Program := do
  let (given, operands) ← switches 1
    ([⟨'r', "recursive", false⟩, ⟨'f', "force", false⟩, ⟨'v', "verbose", false⟩, ⟨'d', "dir", false⟩] ++
      letters "Ri")
  if operands.isEmpty && !has given 'f' then misuse 1 "missing operand".toList
  let deep := has given 'r' || has given 'R'
  operands.forM fun operand => do
    let removed (place : Place) (word : String) : ProgramStep Unit := do
      discard (change fun disk => .ok (removeAll disk place))
      if has given 'v' then out (word.toList ++ quoted operand ++ ['\n'])
    match ← find operand with
    | .error .noSuchFile | .error .notDirectory =>
      if !has given 'f' then
        match ← find operand with
        | .error fault => object 1 "cannot remove " operand (some fault)
        | .ok _ => return
    | .error fault => object 1 "cannot remove " operand (some fault)
    | .ok (place, .directory) =>
      let last := shortName (withoutSlashes operand)
      if deep && (last = ['.'] || last = ['.', '.']) then do
        warn ("refusing to remove '.' or '..' directory: skipping ".toList ++ quoted operand)
        mark 1
      else if deep then removed place "removed directory "
      else if has given 'd' then
        match removalFault (← get).disk (place, .directory) with
        | none => removed place "removed directory "
        | fault => object 1 "cannot remove " operand fault
      else objection 1 "cannot remove " operand (reason .isDirectory)
    | .ok (place, _) => removed place "removed "

/-- Makes files that are not there. -/
def touch : Program := do
  let (given, operands) ← switches 1
    ([⟨'c', "no-create", false⟩, ⟨'d', "date", true⟩, ⟨'r', "reference", true⟩] ++ letters "amh" ++
      valued "t")
  if operands.isEmpty then misuse 1 "missing file operand".toList
  operands.forM fun operand => do
    match ← find operand with
    | .ok _ => return
    | .error _ =>
      if !has given 'c' then object 1 "cannot touch " operand (← writeFile operand [])

/-- Where an operand goes that is copied or moved to a target. -/
def destination (source target : List Char) (inside : Bool) : List Char :=
  if inside then
    withoutSlashes target ++ (if target = ['/'] then [] else ['/']) ++ shortName (withoutSlashes source)
  else target

/-- The entries of a disk under one place, copied to another one. -/
def copyAll (disk : DiskStorage) (source target : Place) : DiskStorage :=
  disk.entries.foldl
    (fun disk entry =>
      if source.isPrefixOf entry.place then
        disk.put (target ++ entry.place.drop source.length) entry.node
      else disk)
    disk

/-- Splits operands into sources and a target, and says whether the target is a directory. -/
def sourcesAndTarget (given : List Given) (operands : List (List Char)) :
    ProgramStep (List (List Char) × List Char × Bool) := do
  match last? given 't', operands.reverse with
  | some target, _ :: _ => return (operands, target, true)
  | _, [] => misuse 1 "missing file operand".toList
  | none, [only] => misuse 1 ("missing destination file operand after ".toList ++ quoted only)
  | none, target :: sources =>
    let found ← find target
    let isDirectory :=
      match found with
      | .ok (_, .directory) => !has given 'T'
      | _ => false
    if sources.length > 1 && !isDirectory then
      let reason := match found with
        | .ok _ => reason .notDirectory
        | .error fault => reason fault
      fail 1 ("target ".toList ++ quoted target ++ ": ".toList ++ reason)
    return (sources.reverse, target, isDirectory)

/-- The options that copying and moving share. -/
def transferSwitches : List Switch :=
  [⟨'f', "force", false⟩, ⟨'n', "no-clobber", false⟩, ⟨'v', "verbose", false⟩, ⟨'i', "interactive", false⟩,
   ⟨'t', "target-directory", true⟩, ⟨'T', "no-target-directory", false⟩, ⟨'u', "update", false⟩]

/-- Copies files, and directories with all that is in them if asked to. -/
def cp : Program := do
  let (given, operands) ← switches 1
    (transferSwitches ++
      [⟨'r', "recursive", false⟩, ⟨'a', "archive", false⟩] ++ letters "RpPLdHl")
  let (sources, target, inside) ← sourcesAndTarget given operands
  let deep := has given 'r' || has given 'R' || has given 'a'
  sources.forM fun source => do
    let goal := destination source target inside
    let shown : ProgramStep Unit :=
      if has given 'v' then out (quoted source ++ " -> ".toList ++ quoted goal ++ ['\n']) else return
    match ← find source, ← find goal with
    | .error fault, _ => object 1 "cannot stat " source (some fault)
    | .ok (_, .directory), goalFound =>
      if !deep then
        warn ("-r not specified; omitting directory ".toList ++ quoted source)
        mark 1
      else
        match goalFound with
        | .ok (_, .directory) | .error _ =>
          let path ← pathOf goal
          let start ← find source
          if goalFound.toOption.isNone then
            match ← change (·.makeDirectory path) with
            | some fault => object 1 "cannot create directory " goal (some fault)
            | none => pure ()
          match start, ← find goal with
          | .ok (origin, _), .ok (target, _) =>
            if origin.isPrefixOf target && origin ≠ target then
              warn ("cannot copy a directory, ".toList ++ quoted source ++ ", into itself, ".toList ++
                quoted goal)
              mark 1
            else
              discard (change fun disk => .ok (copyAll disk origin target))
              shown
          | _, _ => return
        | .ok _ =>
          warn ("cannot overwrite non-directory ".toList ++ quoted goal ++ " with directory ".toList ++
            quoted source)
          mark 1
    | .ok (place, _), .ok (goalPlace, .directory) =>
      if place ≠ goalPlace then
        warn ("cannot overwrite directory ".toList ++ quoted goal ++ " with non-directory".toList)
        mark 1
    | .ok (place, node), found =>
      if (found.toOption.map (·.1)) = some place then
        warn (quoted source ++ " and ".toList ++ quoted goal ++ " are the same file".toList)
        mark 1
      else if !(has given 'n' && found.toOption.isSome) then
        let path ← pathOf goal
        let executable :=
          match node with
          | .file _ executable => executable
          | .program => true
          | _ => false
        let content := match node with
          | .file content _ => content
          | _ => []
        let fault ← change fun disk =>
          (disk.writablePlace path).map fun goalPlace =>
            if (disk.at? goalPlace).isSome then disk.fill goalPlace content
            else disk.put goalPlace (match node with
              | .program => .program
              | _ => .file content executable)
        match fault with
        | none => shown
        | some fault => object 1 "cannot create regular file " goal (some fault)

/-- Moves files and directories. -/
def mv : Program := do
  let (given, operands) ← switches 1 transferSwitches
  let (sources, target, inside) ← sourcesAndTarget given operands
  sources.forM fun source => do
    let goal := destination source target inside
    match ← find source with
    | .error fault => object 1 "cannot stat " source (some fault)
    | .ok (place, node) =>
      let goalFound := (← find goal).toOption
      let path ← pathOf goal
      let isDirectory := node = .directory
      let refusal : Option (List Char) :=
        match goalFound with
        | some (goalPlace, goalNode) =>
          if goalPlace = place then
            some (quoted source ++ " and ".toList ++ quoted goal ++ " are the same file".toList)
          else if goalNode = .directory && !isDirectory then
            some ("cannot overwrite directory ".toList ++ quoted goal ++ " with non-directory".toList)
          else if goalNode ≠ .directory && isDirectory then
            some ("cannot overwrite non-directory ".toList ++ quoted goal ++ " with directory ".toList ++
              quoted source)
          else none
        | none => none
      match refusal with
      | some message => warn message; mark 1
      | none =>
        if !(has given 'n' && goalFound.isSome) then
          let fault ← change fun disk => do
            let slot ← disk.slot path
            if place.isPrefixOf slot.place then .error .alreadyExists
            else if isDirectory && !(disk.children slot.place).isEmpty then .error .notEmpty
            else
              let moved := disk.entries.filter fun e => place.isPrefixOf e.place
              let cleared := removeAll disk place
              .ok (moved.foldl (fun d e => d.put (slot.place ++ e.place.drop place.length) e.node) cleared)
          match fault with
          | none =>
            if has given 'v' then
              out ("renamed ".toList ++ quoted source ++ " -> ".toList ++ quoted goal ++ ['\n'])
          | some .alreadyExists =>
            warn ("cannot move ".toList ++ quoted source ++ " to a subdirectory of itself, ".toList ++
              quoted goal)
            mark 1
          | some fault =>
            warn ("cannot move ".toList ++ quoted source ++ " to ".toList ++ quoted goal ++ ": ".toList ++
              reason fault)
            mark 1

/-- Whether files of a mode may be run, if the mode says so: digits, or clauses between commas. -/
def executableMode? (mode : List Char) (before : Bool) : Option Bool :=
  if !mode.isEmpty && mode.all fun c => '0' ≤ c && c ≤ '7' then
    if mode.length ≤ 5 then some (mode.any fun c => c.toNat % 2 = 1) else none
  else
    (split ',' mode).foldl
      (fun state clause =>
        state.bind fun executable =>
          let who := clause.takeWhile ("ugoa".toList.contains ·)
          match clause.drop who.length with
          | sign :: bits =>
            if bits.all ("rwxXst".toList.contains ·) && "+-=".toList.contains sign then
              let names := bits.contains 'x' || (bits.contains 'X' && executable)
              some <|
                if sign == '+' then executable || names
                else if sign == '-' then executable && !(names && (who.isEmpty || who.contains 'a'))
                else if who.isEmpty || who.contains 'a' then names
                else executable || names
            else none
          | [] => none)
      (some before)

/-- Changes whether files may be run. -/
def chmod : Program := do
  let words := (← get).arguments.filter fun w => w ≠ "-R".toList && w ≠ "-v".toList && w ≠ "--".toList
  match words with
  | [] => misuse 1 "missing operand".toList
  | [mode] => misuse 1 ("missing operand after ".toList ++ quoted mode)
  | mode :: operands =>
    if (executableMode? mode false).isNone then misuse 1 ("invalid mode: ".toList ++ quoted mode)
    operands.forM fun operand => do
      match ← find operand with
      | .ok (place, .file content executable) =>
        let executable := (executableMode? mode executable).getD executable
        discard (change fun disk => .ok (disk.put place (.file content executable)))
      | .ok _ => return
      | .error fault => object 1 "cannot access " operand (some fault)

/-- Lists directories and files. -/
def ls : Program := do
  let (given, operands) ← switches 2
    ([⟨'a', "all", false⟩, ⟨'A', "almost-all", false⟩, ⟨'d', "directory", false⟩, ⟨'r', "reverse", false⟩,
      ⟨'R', "recursive", false⟩, ⟨'F', "classify", false⟩, ⟨'m', "", false⟩] ++ letters "1CpUxlhtSsignoc")
  let operands := if operands.isEmpty then [['.']] else operands
  let sorted (names : List (List Char)) : List (List Char) :=
    if has given 'U' then names
    else
      let up := names.mergeSort precedes
      if has given 'r' then up.reverse else up
  let marked (path name : List Char) : ProgramStep (List Char) := do
    match ← find path with
    | .ok (_, .directory) => return name ++ (if has given 'F' || has given 'p' then ['/'] else [])
    | .ok (_, .file _ true) | .ok (_, .program) => return name ++ (if has given 'F' then ['*'] else [])
    | _ => return name
  let print (names : List (List Char)) : ProgramStep Unit :=
    if has given 'm' && !names.isEmpty then out ([',', ' '].intercalate names ++ ['\n'])
    else out (unlines names)
  let found ← operands.mapM fun operand => return (operand, ← find operand)
  found.forM fun (operand, result) =>
    match result with
    | .error fault => object 2 "cannot access " operand (some fault)
    | .ok _ => return
  let isListed : List Char × Except StorageFault (Place × DiskNode) → Bool
    | (_, .ok (_, .directory)) => !has given 'd'
    | _ => false
  let others := found.filter fun f => f.2.toOption.isSome && !isListed f
  let files ← (sorted (others.map (·.1))).mapM fun path => marked path path
  print files
  let directories := sorted ((found.filter isListed).map (·.1))
  let entries (path : List Char) : ProgramStep (List (List Char)) := do
    match ← find path with
    | .ok (place, .directory) =>
      let names := ((← get).disk.children place).map octetsOf
      let names := if has given 'a' then [['.'], ['.', '.']] ++ names else names
      let shown := names.filter fun name => has given 'a' || has given 'A' || name.head? ≠ some '.'
      return sorted shown
    | _ => return []
  let rec below (fuel : Nat) (path : List Char) : ProgramStep (List (List Char)) :=
    match fuel with
    | 0 => return [path]
    | fuel + 1 => do
      if !has given 'R' then return [path]
      let inside := (← entries path).filter fun name => name ≠ ['.'] && name ≠ ['.', '.']
      let paths := inside.map fun name => withoutSlashes path ++ '/' :: name
      let directories ← paths.filterM fun path => do
        match ← find path with
        | .ok (_, .directory) => return true
        | _ => return false
      return path :: (← directories.mapM (below fuel)).flatten
  let all := (← directories.mapM (below 64)).flatten
  let titled := found.length > 1 || has given 'R'
  let _ ← all.foldlM
    (fun (first : Bool) path => do
      if !first then out ['\n']
      if titled then out (quotedIfOdd path ++ [':', '\n'])
      let names ← entries path
      print (← names.mapM fun name => marked (path ++ '/' :: name) name)
      return false)
    files.isEmpty

/-- Writes the place that each operand leads to. -/
def realpath : Program := do
  let (given, operands) ← switches 1
    ([⟨'e', "canonicalize-existing", false⟩, ⟨'m', "canonicalize-missing", false⟩,
      ⟨'f', "canonicalize", false⟩, ⟨'q', "quiet", false⟩, ⟨'s', "no-symlinks", false⟩])
  if operands.isEmpty then misuse 1 "missing operand".toList
  let isLink := shortName (← get).name = "readlink".toList
  operands.forM fun operand => do
    if isLink && !has given 'f' && !has given 'e' && !has given 'm' then mark 1
    else
      let written (place : Place) : List Char := octetsOf ("/" ++ "/".intercalate place)
      match ← find operand with
      | .ok (place, _) => out (written place ++ ['\n'])
      | .error fault =>
        let path ← pathOf operand
        match (← get).disk.slot path with
        | .ok slot =>
          if has given 'e' then
            if isLink then mark 1
            else do
              warn (quotedIfOdd operand ++ ": ".toList ++ reason fault)
              mark 1
          else out (written slot.place ++ ['\n'])
        | .error fault => do
          if !isLink then warn (quotedIfOdd operand ++ ": ".toList ++ reason fault)
          mark 1

end KeywordIndex.Shell.Utility
