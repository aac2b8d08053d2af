import KeywordIndex.Shell.Word

namespace KeywordIndex.Shell

open Reader

/-!
# Commands of a script

A script is read line by line, and a line as far as its last command goes. What has been run before a
fault is found in a later line has been run.
-/

/-- What is looked for when a token is read. -/
structure Expected where
  /-- Keywords have their own meaning. -/
  keywords : Bool := false
  /-- Line ends are passed over. -/
  overLines : Bool := false
  /-- The word says where a document ends. -/
  delimiter : Bool := false

/-- Commands may begin here. -/
def Expected.command : Expected := { keywords := true }

/-- Commands may begin here or in one of the next lines. -/
def Expected.commandBelow : Expected := { keywords := true, overLines := true }

/-- The lines of a document up to its delimiter, and the number of characters that belong to it. -/
def documentLines (awaited : Awaited) : Nat → List Char → List (List Char) → List Char × Nat
  | 0, _, lines => (lines.reverse.flatten, 0)
  | _ + 1, [], lines => (lines.reverse.flatten, 0)
  | fuel + 1, cs, lines =>
    let written := cs.takeWhile (· ≠ '\n')
    let line := if awaited.indented then written.dropWhile (· == '\t') else written
    let joins := match lines with
      | last :: _ => !awaited.plain && last.getLast? ≠ some '\n'
      | [] => false
    let ended := !(cs.drop written.length).isEmpty
    let size := written.length + (if ended then 1 else 0)
    if line = awaited.delimiter && !joins then (lines.reverse.flatten, size)
    else
      let backslashes := (written.reverse.takeWhile (· == '\\')).length
      let text :=
        if !awaited.plain && backslashes % 2 = 1 then line.dropLast
        else if ended then line ++ ['\n'] else line
      let (content, used) := documentLines awaited fuel (cs.drop size) (text :: lines)
      (content, used + size)

/-- Reads the text of a document. -/
def readDocument (inner : Nested) (awaited : Awaited) : Reader Unit := do
  let cs := (← get).rest
  let (content, used) := documentLines awaited ((← get).size + 1) cs []
  let line := (← get).line
  skip used
  let outside ← get
  let text ←
    if awaited.plain then pure [.text content true]
    else do
      set { outside with rest := content, line }
      inner.pieces { double := true, document := true }
  modify fun s =>
    { s with
      rest := outside.rest
      line := outside.line
      documents := ⟨awaited.number, text⟩ :: s.documents }

/-- Reads the documents that have been announced. -/
def readDocuments (inner : Nested) : Reader Unit := do
  let awaited := (← get).awaited
  modify fun s => { s with awaited := [] }
  awaited.forM (readDocument inner)

/-- Reads the rest of a mark of redirection behind its first character. -/
def readMark (descriptor : Option Nat) (first : Char) : Reader RedirectionMark := do
  if first == '>' then
    let descriptor := descriptor.getD 1
    match ← peekJoined with
    | some '>' => skip 1; return .stream descriptor .append
    | some '|' => skip 1; return .stream descriptor .write
    | some '&' => skip 1; return .stream descriptor .duplicate
    | _ => return .stream descriptor .write
  else
    let descriptor := descriptor.getD 0
    match ← peekJoined with
    | some '<' =>
      skip 1
      if (← peekJoined) == some '-' then do skip 1; return .document descriptor true
      else return .document descriptor false
    | some '&' => skip 1; return .stream descriptor .duplicate
    | some '>' => skip 1; return .stream descriptor .readWrite
    | _ => return .stream descriptor .read

/-- Passes over blanks and comments. -/
def skipBlanks : Reader Unit :=
  repeated () fun _ => do
    match ← peekJoined with
    | some ' ' | some '\t' => skip 1; return .inl ()
    | some '#' => skip (((← get).rest.takeWhile (· ≠ '\n')).length); return .inl ()
    | _ => return .inr ()

/-- Reads the next token as it is written. -/
def rawToken (inner : Nested) (delimiter : Bool) : Reader Token := do
  skipBlanks
  let twice (c : Char) (single double : Token) : Reader Token := do
    skip 1
    if (← peekJoined) == some c then do skip 1; return double else return single
  match ← peek with
  | none => return .endOfText
  | some '\n' => skip 1; return .newline
  | some '&' => twice '&' .background .andThen
  | some '|' => twice '|' .pipe .orElse
  | some ';' => twice ';' .semicolon .endBranch
  | some '(' => skip 1; return .openParen
  | some ')' => skip 1; return .closeParen
  | some _ =>
    let pieces ← inner.pieces { delimiter }
    match ← peek, pieces with
    | some c, [] =>
      if c == '<' || c == '>' then do skip 1; return .redirection (← readMark none c)
      else return .word [] false
    | some c, [.text [d] false] =>
      if (c == '<' || c == '>') && d.isDigit then do
        skip 1
        return .redirection (← readMark (some (d.toNat - '0'.toNat)) c)
      else return .word pieces false
    | _, _ => return .word pieces (isQuoted pieces)

/-- The token as a keyword, if it is one. -/
def Token.asKeyword (t : Token) : Token :=
  match t with
  | .word [.text cs false] _ =>
    match keywords.find? (·.text.toList = cs) with
    | some k => .keyword k
    | none => t
  | _ => t

/-- Reads the next token. -/
def readToken (inner : Nested) (e : Expected) : Reader Token := do
  let next : Reader Token := do
    match (← get).pushed with
    | some token => modify fun s => { s with pushed := none }; return token
    | none => rawToken inner e.delimiter
  let token ←
    if e.overLines then
      repeated () fun _ => do
        match ← next with
        | .newline => readDocuments inner; return .inl ()
        | token => return .inr token
    else next
  return if e.keywords then token.asKeyword else token

/-- Reads the next token, whatever it is. -/
def nextToken (inner : Nested) : Reader Token := readToken inner {}

/-- Lets the token be read again. -/
def push (token : Token) : Reader Unit := modify fun s => { s with pushed := some token }

/-- Complains about a token. -/
def unexpected {α : Type} (token : Token) : Reader α := fail (token.label ++ " unexpected")

/-- Complains about a token that stands in the place of another one. -/
def insteadOf {α : Type} (expected token : Token) : Reader α :=
  fail (token.label ++ " unexpected (expecting " ++ expected.label ++ ")")

/-- Whether the token is the keyword. -/
def Token.is (t : Token) (k : Keyword) : Bool :=
  match t with
  | .keyword found => found == k
  | _ => false

/-- Reads a keyword that has to be there. -/
def demand (inner : Nested) (k : Keyword) (e : Expected) : Reader Unit := do
  let token ← readToken inner e
  if !token.is k then insteadOf (.keyword k) token

/-- Reads the target of a redirection. -/
def readTarget (inner : Nested) (mark : RedirectionMark) : Reader Redirection := do
  match mark with
  | .document descriptor indented =>
    match ← readToken inner { delimiter := true } with
    | .word pieces quoted =>
      let number := (← get).nextDocument
      let awaited : Awaited := ⟨number, (literal? pieces).getD [], quoted, indented⟩
      modify fun s => { s with nextDocument := number + 1, awaited := s.awaited ++ [awaited] }
      return .document descriptor number
    | token => unexpected token
  | .stream descriptor stream =>
    match ← nextToken inner with
    | .word pieces _ => return .stream descriptor stream pieces
    | token => unexpected token

/-- Reads redirections behind a command. A keyword may follow the command, but no redirection. -/
def readRedirections (inner : Nested) : Reader (List Redirection) :=
  repeated [] fun (read : List Redirection) => do
    match ← readToken inner (if read.isEmpty then .command else {}) with
    | .redirection mark => return .inl ((← readTarget inner mark) :: read)
    | token => push token; return .inr read.reverse

/-- The name and the value of a word that assigns to a parameter. -/
def assignment? (pieces : Word) : Option (List Char × Word) :=
  match pieces with
  | .text cs false :: rest =>
    let name := cs.takeWhile isNameChar
    match cs.drop name.length with
    | '=' :: first =>
      if isGoodName name then
        some (name, if first.isEmpty then rest else .text first false :: rest)
      else none
    | _ => none
  | _ => none

/-- What has been read of a simple command, all in reverse. -/
structure SimpleProgress where
  assignments : List (List Char × Word) := []
  words : List Word := []
  redirections : List Redirection := []

/-- The names that no function can have. -/
def specialBuiltins : List String :=
  [".", ":", "break", "continue", "eval", "exec", "exit", "export", "local", "readonly", "return", "set",
   "shift", "times", "trap", "unset"]

/-- Reads a command that is not made of others, or a function. -/
def readSimple (inner : Nested) (readCommand : Expected → Reader Command) : Reader Command := do
  let line := (← get).line
  repeated {} fun (p : SimpleProgress) => do
    let finish : Command :=
      .simple line p.assignments.reverse p.words.reverse p.redirections.reverse
    match ← nextToken inner with
    | .word pieces _ =>
      match if p.words.isEmpty then assignment? pieces else none with
      | some assignment => return .inl { p with assignments := assignment :: p.assignments }
      | none => return .inl { p with words := pieces :: p.words }
    | .redirection mark =>
      return .inl { p with redirections := (← readTarget inner mark) :: p.redirections }
    | .openParen =>
      match p.words, p.assignments, p.redirections with
      | [name], [], [] =>
        let token ← nextToken inner
        match token with
        | .closeParen => pure ()
        | _ => insteadOf .closeParen token
        match name with
        | [.text cs false] =>
          if !isGoodName cs || String.ofList cs ∈ specialBuiltins then fail "Bad function name"
          return .inr (.function cs (← readCommand .commandBelow))
        | _ => fail "Bad function name"
      | _, _, _ => push .openParen; return .inr finish
    | token => push token; return .inr finish

/-- Reads the rest of a conditional behind its first keyword. -/
def readConditional (inner : Nested) : Reader Command := do
  let branch : Reader (Option Command × Option Command) := do
    let condition ← inner.list .body
    demand inner .thenDo {}
    return (condition, ← inner.list .body)
  let first ← branch
  let (branches, otherwise) ←
    repeated [first] fun (read : List (Option Command × Option Command)) => do
      let token ← nextToken inner
      if token.is .elif then return .inl ((← branch) :: read)
      else if token.is .orElse then return .inr (read, ← inner.list .body)
      else do push token; return .inr (read, none)
  return match branches.foldl
      (fun (otherwise : Option Command) (condition, body) =>
        some (.conditional condition body otherwise))
      otherwise with
    | some command => command
    | none => .nothing

/-- Reads the rest of a loop over words behind its first keyword. -/
def readEach (inner : Nested) (line : Nat) : Reader Command := do
  let name ←
    match ← nextToken inner with
    | .word [.text cs false] _ => if isGoodName cs then pure cs else fail "Bad for loop variable"
    | _ => fail "Bad for loop variable"
  let token ← readToken inner .commandBelow
  let words ←
    if token.is .among then
      repeated [] fun (read : List Word) => do
        match ← nextToken inner with
        | .word pieces _ => return .inl (pieces :: read)
        | .newline => readDocuments inner; return .inr read.reverse
        | .semicolon => return .inr read.reverse
        | token => unexpected token
    else do
      match token with
      | .semicolon => pure ()
      | _ => push token
      pure [[.quote, .parameter ['@'] .value true, .quote]]
  demand inner .doIt .commandBelow
  return .each line name words (← inner.list .body)

/-- The pieces of a word, keywords included. -/
def Token.pieces (t : Token) : Word :=
  match t with
  | .word pieces _ => pieces
  | .keyword k => [.text k.text.toList false]
  | _ => []

/-- Reads the rest of a choice behind its first keyword. -/
def readChoice (inner : Nested) (line : Nat) : Reader Command := do
  let word ←
    match ← nextToken inner with
    | .word pieces _ => pure pieces
    | token => insteadOf (.word [] false) token
  demand inner .among .commandBelow
  let branches ← repeated [] fun (read : List Branch) => do
    let token ← readToken inner .commandBelow
    if token.is .esac then return .inr read.reverse
    else
      let first ←
        match token with
        | .openParen => nextToken inner
        | _ => pure token
      let patterns ← repeated [first.pieces] fun (patterns : List Word) => do
        match ← nextToken inner with
        | .pipe => return .inl ((← nextToken inner).pieces :: patterns)
        | .closeParen => return .inr patterns.reverse
        | token => insteadOf .closeParen token
      let body ← inner.list .optional
      let branch := Branch.mk patterns body
      let token ← readToken inner .commandBelow
      match token with
      | .endBranch => return .inl (branch :: read)
      | token =>
        if token.is .esac then return .inr (branch :: read).reverse
        else insteadOf .endBranch token
  return .choice line word branches

/-- Reads a command. -/
def readCommand (inner : Nested) : Nat → Expected → Reader Command
  | 0, _ => fail "word unexpected"
  | fuel + 1, e => do
    let line := (← get).line
    let token ← readToken inner e
    let compound (body : Command) : Reader Command := do
      match ← readRedirections inner with
      | [] => return body
      | redirections =>
        match body with
        | .subshell _ inside _ => return .subshell line inside redirections
        | _ => return .redirected line body redirections
    match token with
    | .openParen =>
      let body ← inner.list .body
      match ← nextToken inner with
      | .closeParen => compound (.subshell line body [])
      | token => insteadOf .closeParen token
    | .word _ _ | .redirection _ => push token; readSimple inner (readCommand inner fuel)
    | .keyword .ifSo =>
      let body ← readConditional inner
      demand inner .fi {}
      compound body
    | .keyword .whileSo | .keyword .untilSo =>
      let condition ← inner.list .body
      demand inner .doIt {}
      let body ← inner.list .body
      demand inner .done {}
      compound (.loop (token.is .whileSo) condition body)
    | .keyword .forEach =>
      let body ← readEach inner line
      demand inner .done {}
      compound body
    | .keyword .caseOf => compound (← readChoice inner line)
    | .keyword .openBrace =>
      let body ← inner.list .body
      demand inner .closeBrace {}
      compound (body.getD .nothing)
    | token => unexpected token

/-- Reads commands with bars between them. -/
def readPipeline (inner : Nested) (e : Expected) : Reader Command := do
  let depth := (← get).size + 2
  let token ← readToken inner e
  let negated := token.is .bang
  if !negated then push token
  let first ← readCommand inner depth .command
  let commands ← repeated [first] fun (read : List Command) => do
    match ← nextToken inner with
    | .pipe => return .inl ((← readCommand inner depth .commandBelow) :: read)
    | token => push token; return .inr read.reverse
  let command :=
    match commands with
    | [command] => command
    | _ => .pipeline commands
  return if negated then .negated command else command

/-- Reads pipelines that are run on conditions. -/
def readChain (inner : Nested) : Reader Command := do
  let first ← readPipeline inner .command
  repeated first fun (read : Command) => do
    match ← nextToken inner with
    | .andThen => return .inl (.both read (← readPipeline inner .commandBelow))
    | .orElse => return .inl (.either read (← readPipeline inner .commandBelow))
    | token => push token; return .inr read

/-- What has been read of a list of commands. -/
structure ListProgress where
  /-- The commands, the last first. -/
  commands : List Command := []
  optional : Bool

/-- The commands as one. -/
def ListProgress.command (p : ListProgress) : Option Command :=
  match p.commands with
  | [] => none
  | [command] => some command
  | commands => some (.sequence commands.reverse)

/-- Reads commands one after another. -/
def readList (inner : Nested) (kind : ListKind) : Reader (Option Command) :=
  let e : Expected := if kind = .line then .command else .commandBelow
  repeated { optional := kind = .optional ∨ kind = .enclosed } fun (p : ListProgress) => do
    match ← readToken inner e with
    | .newline => readDocuments inner; return .inr p.command
    | .endOfText => readDocuments inner; push .endOfText; return .inr p.command
    | token =>
      push token
      if kind ≠ .line && p.optional && token.endsList then return .inr p.command
      else
        let next ← readChain inner
        let token ← nextToken inner
        let next :=
          match token with
          | .background => .background next
          | _ => next
        let p : ListProgress := ⟨next :: p.commands, true⟩
        match token with
        | .endOfText => readDocuments inner; push .endOfText; return .inr p.command
        | .newline => push token; return .inl p
        | .semicolon | .background => return .inl p
        | _ =>
          if kind = .line then unexpected token
          else do push token; return .inr p.command

/-- Reads commands of a kind, and what has to stand behind them. -/
def readListOf (inner : Nested) (kind : ListKind) : Reader (Option Command) := do
  let command ← readList inner kind
  if kind = .enclosed then
    match ← nextToken inner with
    | .closeParen => pure ()
    | token => insteadOf .closeParen token
  return command

/-- The readers of what may be nested, to the given depth. -/
def nested : Nat → Nested
  | 0 => ⟨fun _ => fail "Unterminated quoted string", fun _ => fail "Unterminated quoted string"⟩
  | depth + 1 =>
    ⟨fun mode => readPieces (nested depth) mode, fun kind => readListOf (nested depth) kind⟩

/-- Reads the commands of the next line, as far as they go. There is no line behind the last one. -/
def readLine : Reader (Option (Option Command)) := do
  let inner := nested (2 * (← get).size + 8)
  modify fun s => { s with pushed := none, awaited := [] }
  match (← get).rest with
  | [] => return none
  | _ => return some (← readList inner .line)

end KeywordIndex.Shell
