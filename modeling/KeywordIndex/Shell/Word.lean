import KeywordIndex.Shell.Reading

namespace KeywordIndex.Shell

open Reader

/-!
# Words of a script

A word is read up to the character that ends it. Double quotes and braces hold words of their own, and
parentheses after a dollar sign hold commands or calculations.
-/

/-- What a word stands in. -/
structure Mode where
  /-- In double quotes, which also holds for documents and calculations. -/
  double : Bool := false
  /-- In the braces of a parameter. -/
  braces : Bool := false
  /-- In the text of a document, where quotation marks are plain characters. -/
  document : Bool := false
  /-- In the parentheses of a calculation. -/
  calculation : Bool := false
  /-- A word that says where a document ends, where dollar signs are plain characters. -/
  delimiter : Bool := false

/-- How lists of commands differ from each other. -/
inductive ListKind where
  /-- The commands of a line. -/
  | line
  /-- One command at least. -/
  | body
  /-- Commands, or none. -/
  | optional
  /-- Commands, or none, and the parenthesis behind them. -/
  | enclosed
  deriving DecidableEq

/-- What may be nested in words and commands. -/
structure Nested where
  pieces : Mode → Reader (List Piece)
  list : ListKind → Reader (Option Command)

/-- Reads to the closing single quote and passes over it. -/
def singleQuoted : Reader (List Char) := do
  let inside := (← get).rest.takeWhile (· ≠ '\'')
  skip inside.length
  if (← peek).isNone then fail "Unterminated quoted string"
  skip 1
  return inside

/-- Reads the text of a command to the closing backquote. Some characters lose the backslash before
them. -/
def backquoted (double : Bool) : Reader (List Char) :=
  repeated [] fun (read : List Char) => do
    joinLines
    match (← get).rest with
    | [] => fail "EOF in backquote substitution"
    | '\x60' :: _ => skip 1; return .inr read.reverse
    | '\\' :: c :: _ =>
      skip 2
      if c = '\\' ∨ c = '\x60' ∨ c = '$' ∨ (double ∧ c = '"') then return .inl (c :: read)
      else return .inl (c :: '\\' :: read)
    | c :: _ => skip 1; return .inl (c :: read)

/-- Reads the commands of a text that was cut out of the script. -/
def readInside (inner : Nested) (text : List Char) : Reader (Option Command) := do
  let outside ← get
  set { outside with rest := text, line := 1, pushed := none, awaited := [] }
  let command ← inner.list .optional
  modify fun s =>
    { s with rest := outside.rest, line := outside.line, pushed := none, awaited := outside.awaited }
  return command

/-- Reads how the parameter between braces is used, behind its name. -/
def readUse (inner : Nested) (mode : Mode) : Reader Use := do
  let word (double : Bool) : Reader (List Piece) :=
    inner.pieces { double, braces := true, document := mode.document && double }
  match ← peekJoined with
  | some '\x7d' => skip 1; return .value
  | some '%' | some '#' =>
    let first ← peek
    skip 1
    let longest := (← peekJoined) == first
    if longest then skip 1
    return .trim ⟨first == some '%', longest⟩ (← word false)
  | some c =>
    let colon := c == ':'
    let c ←
      if colon then do
        skip 1
        pure ((← peekJoined).getD ' ')
      else pure c
    let case? : Option Missing :=
      match c with
      | '-' => some .replaced
      | '=' => some .assigned
      | '?' => some .reported
      | '+' => some .kept
      | _ => none
    match case? with
    | some case =>
      skip 1
      return .missing case colon (← word mode.double)
    | none =>
      if (← peek) == some '\x7d' then
        skip 1
        discard (word mode.double)
        return .value
      else
        skip 1
        discard (word mode.double)
        return .invalid
  | none => do
    discard (word mode.double)
    return .invalid

/-- Reads what stands between braces after a dollar sign. -/
def readBraced (inner : Nested) (mode : Mode) : Reader Piece := do
  let parameter (name : List Char) (use : Use) : Piece := .parameter name use mode.double
  let invalid : Reader Piece := do
    discard (inner.pieces { double := mode.double, braces := true, document := mode.document })
    return parameter [] .invalid
  let name : Reader (List Char) := do
    match ← peekJoined with
    | some c =>
      if isNameStart c then takeJoined isNameChar
      else if c.isDigit then takeJoined Char.isDigit
      else if isSpecialParameter c then do skip 1; return [c]
      else return []
    | none => return []
  let closed (found : List Char) : Reader Piece := do
    if (← peekJoined) == some '\x7d' then do skip 1; return parameter found .length else invalid
  if (← peekJoined) == some '#' then
    skip 1
    joinLines
    match (← get).rest with
    | '\x7d' :: _ => skip 1; return parameter ['#'] .value
    | c :: d :: _ =>
      if isNameChar c then closed (← name)
      else if d == '\x7d' then
        if isSpecialParameter c then do skip 1; closed [c] else invalid
      else return parameter ['#'] (← readUse inner mode)
    | _ => invalid
  else
    let found ← name
    if found.isEmpty then
      if (← peek) != some '\x7d' then skip 1
      invalid
    else return parameter found (← readUse inner mode)

/-- Reads what follows a dollar sign. -/
def readDollar (inner : Nested) (mode : Mode) : Reader Piece := do
  let plain : Piece := .text ['$'] mode.double
  let value (name : List Char) : Piece := .parameter name .value mode.double
  if mode.delimiter then return plain
  match ← peekJoined with
  | some '(' =>
    skip 1
    if (← peekJoined) == some '(' then
      skip 1
      return .calculation (← inner.pieces { double := true, calculation := true }) mode.double
    else
      let outside ← get
      set { outside with pushed := none, awaited := [] }
      let command ← inner.list .enclosed
      modify fun s => { s with awaited := outside.awaited }
      return .output command mode.double
  | some '\x7b' => skip 1; readBraced inner mode
  | some c =>
    if isNameStart c then return value (← takeJoined isNameChar)
    else if isSpecialParameter c then do skip 1; return value [c]
    else return plain
  | none => return plain

/-- What has been read of a word. -/
structure Progress where
  /-- The pieces, the last first. -/
  pieces : List Piece := []
  /-- The characters behind the pieces, the last first, and whether they are quoted. -/
  run : List Char := []
  quoted : Bool := false
  /-- The parentheses that are open. -/
  depth : Nat := 0

namespace Progress

/-- Makes a piece of the characters behind the pieces. -/
def settle (p : Progress) : Progress :=
  if p.run.isEmpty then p else { p with pieces := .text p.run.reverse p.quoted :: p.pieces, run := [] }

/-- Adds a character. -/
def add (p : Progress) (c : Char) (quoted : Bool) : Progress :=
  if p.quoted = quoted then { p with run := c :: p.run } else { p.settle with run := [c], quoted }

/-- Adds a piece. -/
def attach (p : Progress) (piece : Piece) : Progress :=
  let p := p.settle
  { p with pieces := piece :: p.pieces }

/-- All pieces, the first first. -/
def finish (p : Progress) : List Piece := p.settle.pieces.reverse

end Progress

/-- The characters that end a word outside quotes. -/
def endsWord (c : Char) : Bool :=
  c == ' ' || c == '\t' || c == '\n' || c == ';' || c == '&' || c == '|' || c == '<' || c == '>' ||
    c == '(' || c == ')'

/-- Reads a piece outside quotes. -/
def plainStep (inner : Nested) (mode : Mode) (p : Progress) (c : Char) :
    Reader (Progress ⊕ List Piece) := do
  let add (p : Progress) : Reader (Progress ⊕ List Piece) := return .inl p
  if endsWord c && !mode.braces then return .inr p.finish
  skip 1
  match c with
  | '\x7d' => if mode.braces then return .inr p.finish else add (p.add c false)
  | '\\' =>
    match ← peek with
    | some d => skip 1; add (p.add d true)
    | none => add (p.add c true)
  | '\'' =>
    let inside ← singleQuoted
    add ((inside.foldl (fun p c => p.add c true) (p.attach .quote)).attach .quote)
  | '"' =>
    let inside ← inner.pieces { double := true, delimiter := mode.delimiter }
    add ((inside.foldl Progress.attach (p.attach .quote)).attach .quote)
  | '$' => add (p.attach (← readDollar inner mode))
  | '\x60' =>
    if mode.delimiter then add (p.add c false)
    else add (p.attach (.output (← readInside inner (← backquoted false)) false))
  | _ => add (p.add c false)

/-- Reads a piece in double quotes. -/
def doubleStep (inner : Nested) (mode : Mode) (p : Progress) (c : Char) :
    Reader (Progress ⊕ List Piece) := do
  let add (p : Progress) : Reader (Progress ⊕ List Piece) := return .inl p
  skip 1
  match c with
  | '"' =>
    if (mode.document && !mode.braces) || mode.calculation then add (p.add c true)
    else if mode.braces then add p
    else return .inr p.finish
  | '\x7d' => if mode.braces then return .inr p.finish else add (p.add c true)
  | '(' =>
    return .inl { p.add c true with depth := if mode.calculation then p.depth + 1 else p.depth }
  | ')' =>
    if !mode.calculation then add (p.add c true)
    else if 0 < p.depth then return .inl { p.add c true with depth := p.depth - 1 }
    else if (← peekJoined) == some ')' then do skip 1; return .inr p.finish
    else add (p.add c true)
  | '\\' =>
    match ← peek with
    | some d =>
      let special := d == '\\' || d == '\x60' || d == '$' ||
        (d == '"' && !(mode.document && !mode.braces)) || (d == '\x7d' && mode.braces)
      skip 1
      add (if special then p.add d true else (p.add c true).add d true)
    | none => add (p.add c true)
  | '$' => add (p.attach (← readDollar inner mode))
  | '\x60' =>
    if mode.delimiter then add (p.add c true)
    else add (p.attach (.output (← readInside inner (← backquoted true)) true))
  | _ => add (p.add c true)

/-- Reads the pieces up to the end of what they stand in. -/
def readPieces (inner : Nested) (mode : Mode) : Reader (List Piece) :=
  repeated {} fun (p : Progress) => do
    match ← peekJoined with
    | some c => if mode.double then doubleStep inner mode p c else plainStep inner mode p c
    | none =>
      if mode.calculation then fail "Missing '))'"
      else if mode.double && !(mode.document && !mode.braces) then fail "Unterminated quoted string"
      else if mode.braces then fail "Missing '\x7d'"
      else return .inr p.finish

/-- The characters of pieces without quotes, where the pieces are characters only. -/
def literal? (pieces : List Piece) : Option (List Char) :=
  pieces.foldr
    (fun piece rest =>
      match piece with
      | .text cs _ => rest.map (cs ++ ·)
      | .quote => rest
      | _ => none)
    (some [])

/-- Whether some of a word is quoted. -/
def isQuoted (pieces : List Piece) : Bool :=
  pieces.any fun piece =>
    match piece with
    | .quote => true
    | .text _ quoted => quoted
    | _ => false

end KeywordIndex.Shell
