import KeywordIndex.Shell.Calculation
import KeywordIndex.Shell.Pattern

namespace KeywordIndex.Shell

/-!
# Regular expressions

Programs that search texts are given regular expressions in one of two notations. Of the matches that
begin first the longest is taken. Groups in parentheses hold the parts of the text that they matched.
-/

/-- A regular expression. -/
inductive RegularExpression where
  | empty
  | char (fits : Char → Bool)
  | textStart
  | textEnd
  /-- A position between two characters, of which one or both may be missing. -/
  | between (fits : Option Char → Option Char → Bool)
  | sequence (first second : RegularExpression)
  | alternative (first second : RegularExpression)
  | repeated (inner : RegularExpression) (least : Nat) (most : Option Nat)
  | group (number : Nat) (inner : RegularExpression)
  /-- The text that a group has matched. -/
  | same (number : Nat)
  deriving Inhabited

/-- A position in a text. -/
structure Cursor where
  /-- The character before the position. -/
  before : Option Char
  rest : List Char
  /-- The length of the rest. -/
  remaining : Nat
  /-- What groups have matched, the last first. -/
  groups : List (Nat × List Char) := []

/-- The start of a text, or a position in it behind a character. -/
def Cursor.ofText (before : Option Char) (rest : List Char) : Cursor := ⟨before, rest, rest.length, []⟩

/-- A character of a word. -/
def isWordChar (c : Char) : Bool := c.isAlphanum || c == '_'

/-- Of several cursors at one position the first is kept. -/
def distinctCursors (cursors : List Cursor) : List Cursor :=
  (cursors.foldl
    (fun (kept : List Cursor) c => if kept.any (·.remaining = c.remaining) then kept else c :: kept)
    []).reverse

/-- What is reached by further repetitions of a step, beginning with some cursors. -/
def repetitions (step : Cursor → List Cursor) (least : Nat) (most : Option Nat) :
    Nat → List Cursor → List Cursor
  | 0, cursors => cursors
  | fuel + 1, cursors =>
    let reached := if least = 0 then cursors else []
    if most = some 0 || cursors.isEmpty then reached
    else
      let next := distinctCursors <| cursors.flatMap fun c =>
        (step c).filter fun d => d.remaining < c.remaining || 0 < least
      reached ++ repetitions step (least - 1) (most.map (· - 1)) fuel next

/-- The positions behind what an expression matches at a cursor, the most wanted first. -/
def RegularExpression.run : RegularExpression → Cursor → List Cursor
  | .empty, c => [c]
  | .char fits, c =>
    match c.rest with
    | d :: rest => if fits d then [⟨some d, rest, c.remaining - 1, c.groups⟩] else []
    | [] => []
  | .textStart, c => if c.before.isNone then [c] else []
  | .textEnd, c => if c.rest.isEmpty then [c] else []
  | .between fits, c => if fits c.before c.rest.head? then [c] else []
  | .sequence first second, c => distinctCursors ((first.run c).flatMap second.run)
  | .alternative first second, c =>
    (distinctCursors (first.run c ++ second.run c)).mergeSort fun a b => a.remaining ≤ b.remaining
  | .repeated inner least most, c =>
    (distinctCursors (repetitions inner.run least most (c.remaining + least + 2) [c])).mergeSort
      fun a b => a.remaining ≤ b.remaining
  | .group number inner, c =>
    (inner.run c).map fun d =>
      { d with groups := (number, c.rest.take (c.remaining - d.remaining)) :: d.groups }
  | .same number, c =>
    match c.groups.lookup number with
    | some text =>
      if text.isPrefixOf c.rest then
        [⟨text.getLast?.or c.before, c.rest.drop text.length, c.remaining - text.length, c.groups⟩]
      else []
    | none => []

/-- A match in a text. -/
structure Found where
  /-- What stands before the match. -/
  skipped : List Char
  text : List Char
  /-- What stands behind the match. -/
  rest : List Char
  groups : List (Nat × List Char)

/-- The longest match of an expression at a cursor. -/
def RegularExpression.longest? (e : RegularExpression) (c : Cursor) : Option Cursor :=
  (e.run c).foldl
    (fun best d =>
      match best with
      | some b => if d.remaining < b.remaining then some d else best
      | none => some d)
    none

/-- The first match of an expression in a text, which follows the given character. -/
def RegularExpression.search? (e : RegularExpression) (before : Option Char) :
    List Char → Option Found
  | [] => (e.longest? (.ofText before [])).map fun d => ⟨[], [], [], d.groups⟩
  | c :: cs =>
    match e.longest? (.ofText before (c :: cs)) with
    | some d => some ⟨[], (c :: cs).take (cs.length + 1 - d.remaining), d.rest, d.groups⟩
    | none => (search? e (some c) cs).map fun found => { found with skipped := c :: found.skipped }

/-! ## Notations -/

/-- How expressions are written. -/
structure Notation where
  /-- Parentheses, braces, bars and the signs of repetition have their meaning without a backslash. -/
  extended : Bool
  ignoreCase : Bool := false
  /-- With extended notation, a closing parenthesis needs an opening one, and a sign of repetition
  something before it. -/
  strict : Bool := false

/-- What is left of an expression that is being read, and the groups that were opened. -/
structure ExpressionText where
  rest : List Char
  groups : Nat := 0
  closed : List Nat := []

/-- Reads from an expression. -/
abbrev ExpressionReader := StateT ExpressionText (Except String)

/-- Characters that a character stands for. -/
def Notation.fits (n : Notation) (c d : Char) : Bool :=
  c = d || (n.ignoreCase && c.toLower = d.toLower)

/-- A sign of a notation at the start of a text, and what follows it. -/
def Notation.sign? (n : Notation) (sign : Char) (cs : List Char) : Option (List Char) :=
  if n.extended then
    match cs with
    | c :: rest => if c = sign then some rest else none
    | [] => none
  else
    match cs with
    | '\\' :: c :: rest => if c = sign then some rest else none
    | _ => none

/-- Reads the bounds of a repetition, up to the closing brace. -/
def readBounds (n : Notation) (cs : List Char) : Except String (Nat × Option Nat × List Char) :=
  let low := cs.takeWhile Char.isDigit
  let rest := cs.drop low.length
  let close (least : Nat) (most : Option Nat) (rest : List Char) :=
    match n.sign? '\x7d' rest with
    | some after =>
      if most.any (· < least) || 32767 < least || most.any (32767 < ·) then
        .error (if 32767 < least || most.any (32767 < ·) then "Regular expression too big"
          else "Invalid content of \\\x7b\\\x7d")
      else .ok (least, most, after)
    | none => .error (if rest.isEmpty then "Unmatched \\\x7b" else "Invalid content of \\\x7b\\\x7d")
  match rest with
  | ',' :: more =>
    let high := more.takeWhile Char.isDigit
    close (numberIn 10 low) (if high.isEmpty then none else some (numberIn 10 high)) (more.drop high.length)
  | _ =>
    if low.isEmpty then .error "Invalid content of \\\x7b\\\x7d"
    else close (numberIn 10 low) (some (numberIn 10 low)) rest

/-- Reads a bracket expression behind its opening bracket. -/
def readBrackets (n : Notation) (cs : List Char) : Except String (RegularExpression × List Char) :=
  let (negated, cs) :=
    match cs with
    | '^' :: rest => (true, rest)
    | _ => (false, cs)
  let pattern : Pattern := cs.map fun c => ⟨c, c == '\\'⟩
  if cs.isEmpty then .error "Invalid regular expression" else
  match readMembers true (fun _ => false) (cs.length + 1) pattern with
  | some (inClass, after) =>
    let fits (c : Char) : Bool :=
      if n.ignoreCase then inClass c.toLower || inClass c.toUpper else inClass c
    .ok (.char fun c => fits c != negated, after.map (·.char))
  | none => .error "Unmatched [, [^, [:, [., or [="

/-- Adds the signs of repetition behind an expression. -/
def readRepetitions (n : Notation) : Nat → RegularExpression → ExpressionReader RegularExpression
  | 0, e => return e
  | fuel + 1, e => do
    let cs := (← get).rest
    let after (rest : List Char) (least : Nat) (most : Option Nat) :
        ExpressionReader RegularExpression := do
      modify fun s => { s with rest }
      readRepetitions n fuel (.repeated e least most)
    match cs with
    | '*' :: rest => after rest 0 none
    | _ =>
      match n.sign? '+' cs, n.sign? '?' cs, n.sign? '\x7b' cs with
      | some rest, _, _ => after rest 1 none
      | _, some rest, _ => after rest 0 (some 1)
      | _, _, some inside =>
        match readBounds n inside with
        | .ok (least, most, rest) => after rest least most
        | .error message =>
          let closes := inside.contains '\x7d' && (inside.head?.any fun c => c.isDigit || c == ',')
          if n.extended && !closes then return e else throw message
      | _, _, _ => return e

/-- Whether an end of an expression, or of a part of it, comes next. -/
def endsExpression (n : Notation) (opened : Bool) (cs : List Char) : Bool :=
  let mayClose := opened || n.strict || !n.extended
  cs.isEmpty || (n.sign? '|' cs).isSome || ((n.sign? ')' cs).isSome && mayClose)

/-- The expression for a letter behind a backslash. -/
def letterExpression? (c : Char) : Option RegularExpression :=
  let isSpace (d : Char) : Bool := d = ' ' || (9 ≤ d.toNat && d.toNat ≤ 13)
  match c with
  | 'w' => some (.char isWordChar)
  | 'W' => some (.char (!isWordChar ·))
  | 's' => some (.char isSpace)
  | 'S' => some (.char (!isSpace ·))
  | 'b' => some (.between fun b a => b.any isWordChar != a.any isWordChar)
  | 'B' => some (.between fun b a => b.any isWordChar == a.any isWordChar)
  | '<' => some (.between fun b a => !b.any isWordChar && a.any isWordChar)
  | '>' => some (.between fun b a => b.any isWordChar && !a.any isWordChar)
  | '\x60' => some .textStart
  | '\'' => some .textEnd
  | _ => none

mutual

/-- Reads alternatives. -/
def readAlternatives (n : Notation) (opened : Bool) : Nat → ExpressionReader RegularExpression
  | 0 => return .empty
  | fuel + 1 => do
    let first ← readSequence n opened true fuel
    match n.sign? '|' (← get).rest with
    | some rest =>
      modify fun s => { s with rest }
      return .alternative first (← readAlternatives n opened fuel)
    | none => return first

/-- Reads expressions one behind the other. -/
def readSequence (n : Notation) (opened first : Bool) : Nat → ExpressionReader RegularExpression
  | 0 => return .empty
  | fuel + 1 => do
    let cs := (← get).rest
    if endsExpression n opened cs then return .empty
    let item ← readItem n opened first fuel
    let startsAnew := first && match item with
      | .textStart => !n.extended
      | _ => false
    let others ← readSequence n opened startsAnew fuel
    return .sequence item others

/-- Reads one item with the signs of repetition behind it. -/
def readItem (n : Notation) (opened first : Bool) : Nat → ExpressionReader RegularExpression
  | 0 => return .empty
  | fuel + 1 => do
    let cs := (← get).rest
    let plain (c : Char) (rest : List Char) : ExpressionReader RegularExpression := do
      modify fun s => { s with rest }
      readRepetitions n rest.length (.char (n.fits c))
    let bare (e : RegularExpression) (rest : List Char) : ExpressionReader RegularExpression := do
      modify fun s => { s with rest }
      return e
    match n.sign? '(' cs with
    | some rest => do
      let number := (← get).groups + 1
      modify fun s => { s with rest, groups := number }
      let inner ← readAlternatives n true fuel
      match n.sign? ')' (← get).rest with
      | some rest =>
        modify fun s => { s with rest, closed := number :: s.closed }
        readRepetitions n rest.length (.group number inner)
      | none => throw "Unmatched ( or \\("
    | none =>
      match cs with
      | [] => return .empty
      | '\\' :: [] => throw "Trailing backslash"
      | '\\' :: c :: rest =>
        if c.isDigit && c ≠ '0' then
          let number := c.toNat - '0'.toNat
          if !(← get).closed.contains number then throw "Invalid back reference"
          modify fun s => { s with rest }
          readRepetitions n rest.length (.same number)
        else if !n.extended && c = '\x7b' then
          if first then plain c rest else throw "Invalid preceding regular expression"
        else
          match letterExpression? c with
          | some e =>
            modify fun s => { s with rest }
            readRepetitions n rest.length e
          | none => plain c rest
      | '[' :: rest =>
        match readBrackets n rest with
        | .ok (e, rest) =>
          modify fun s => { s with rest }
          readRepetitions n rest.length e
        | .error message => throw message
      | '.' :: rest =>
        modify fun s => { s with rest }
        readRepetitions n rest.length (.char fun _ => true)
      | '^' :: rest => if n.extended || first then bare .textStart rest else plain '^' rest
      | '$' :: rest =>
        if n.extended || endsExpression n opened rest then bare .textEnd rest else plain '$' rest
      | '*' :: rest =>
        if !n.extended then plain '*' rest
        else if n.strict then throw "Invalid preceding regular expression"
        else bare .empty rest
      | c :: rest =>
        if n.extended && (c = '+' || c = '?') then
          if n.strict then throw "Invalid preceding regular expression" else bare .empty rest
        else plain c rest

end

/-- Reads an expression. -/
def RegularExpression.read (n : Notation) (cs : List Char) : Except String RegularExpression := do
  let (e, s) ← (readAlternatives n false (2 * cs.length + 4)).run { rest := cs }
  if s.rest.isEmpty then return e
  else throw "Unmatched ) or \\)"

/-- The expression that matches a text only. -/
def RegularExpression.ofText (n : Notation) (cs : List Char) : RegularExpression :=
  cs.foldr (fun c e => .sequence (.char (n.fits c)) e) .empty

end KeywordIndex.Shell
