import KeywordIndex.Shell.Command

namespace KeywordIndex.Shell

/-!
# Reading a script

A script is read from its start, a token at a time. Documents are announced in a line and read when the
line ends.
-/

/-- The words that have a meaning of their own at the start of a command. -/
inductive Keyword where
  | bang
  | caseOf
  | doIt
  | done
  | elif
  | orElse
  | esac
  | fi
  | forEach
  | ifSo
  | among
  | thenDo
  | untilSo
  | whileSo
  | openBrace
  | closeBrace
  deriving DecidableEq, Repr

/-- How the keyword is written. -/
def Keyword.text : Keyword → String
  | bang => "!"
  | caseOf => "case"
  | doIt => "do"
  | done => "done"
  | elif => "elif"
  | orElse => "else"
  | esac => "esac"
  | fi => "fi"
  | forEach => "for"
  | ifSo => "if"
  | among => "in"
  | thenDo => "then"
  | untilSo => "until"
  | whileSo => "while"
  | openBrace => "\x7b"
  | closeBrace => "\x7d"

/-- All keywords. -/
def keywords : List Keyword :=
  [.bang, .caseOf, .doIt, .done, .elif, .orElse, .esac, .fi, .forEach, .ifSo, .among, .thenDo, .untilSo,
   .whileSo, .openBrace, .closeBrace]

/-- A redirection without its target. -/
inductive RedirectionMark where
  | stream (descriptor : Nat) (stream : Stream)
  /-- The lines of the document begin with tabs that do not count if `indented`. -/
  | document (descriptor : Nat) (indented : Bool)
  deriving DecidableEq, Repr

/-- A token of a script. -/
inductive Token where
  | endOfText
  | newline
  | semicolon
  | background
  | andThen
  | orElse
  | pipe
  | openParen
  | closeParen
  | endBranch
  | redirection (mark : RedirectionMark)
  /-- A word, and whether some of it is quoted. -/
  | word (pieces : Word) (quoted : Bool)
  | keyword (k : Keyword)

/-- What a complaint calls the token. -/
def Token.label : Token → String
  | endOfText => "end of file"
  | newline => "newline"
  | semicolon => "\";\""
  | background => "\"&\""
  | andThen => "\"&&\""
  | orElse => "\"||\""
  | pipe => "\"|\""
  | openParen => "\"(\""
  | closeParen => "\")\""
  | endBranch => "\";;\""
  | redirection _ => "redirection"
  | word _ _ => "word"
  | keyword k => "\"" ++ k.text ++ "\""

/-- Whether the token ends a list of commands. -/
def Token.endsList : Token → Bool
  | endOfText | closeParen | endBranch => true
  | keyword k =>
    match k with
    | .doIt | .done | .elif | .orElse | .esac | .fi | .thenDo | .closeBrace => true
    | _ => false
  | _ => false

/-- A document whose text has not been reached. -/
structure Awaited where
  number : Nat
  /-- The line behind its text. -/
  delimiter : List Char
  /-- Whether dollar signs and backslashes in it are plain characters. -/
  plain : Bool
  indented : Bool

/-- A script that is being read. -/
structure Source where
  rest : List Char
  /-- No text that is read is longer. -/
  size : Nat
  line : Nat := 1
  /-- A token that has been looked at. -/
  pushed : Option Token := none
  awaited : List Awaited := []
  documents : List Document := []
  nextDocument : Nat := 0

/-- Reads from a script. -/
abbrev Reader := StateT Source (Except SyntaxFault)

namespace Reader

/-- Complains about the script. -/
def fail {α : Type} (message : String) : Reader α := do
  throw ⟨(← get).line, message⟩

/-- Takes steps until one gives a result, but no more than `fuel`. -/
def loop {σ α : Type} (step : σ → Reader (σ ⊕ α)) : Nat → σ → Reader α
  | 0, _ => fail "Unterminated quoted string"
  | fuel + 1, s => do
    match ← step s with
    | .inl next => loop step fuel next
    | .inr result => pure result

/-- A loop whose steps all read something. -/
def repeated {σ α : Type} (s : σ) (step : σ → Reader (σ ⊕ α)) : Reader α := do
  loop step ((← get).size + 2) s

/-- The next character, not yet read. -/
def peek : Reader (Option Char) := do return (← get).rest.head?

/-- Passes over some characters. -/
def skip (n : Nat) : Reader Unit :=
  modify fun s =>
    let passed := (s.rest.take n).count '\n'
    { s with rest := s.rest.drop n, line := s.line + passed }

/-- Passes over pairs of a backslash and a line end, which join lines. -/
def joinLines : Reader Unit :=
  repeated () fun _ => do
    match (← get).rest with
    | '\\' :: '\n' :: _ => skip 2; return .inl ()
    | _ => return .inr ()

/-- The next character after joining lines, not yet read. -/
def peekJoined : Reader (Option Char) := do
  joinLines
  peek

/-- Reads characters of a kind, joining lines. -/
def takeJoined (p : Char → Bool) : Reader (List Char) :=
  repeated [] fun (read : List Char) => do
    match ← peekJoined with
    | some c => if p c then do skip 1; return .inl (c :: read) else return .inr read.reverse
    | none => return .inr read.reverse

end Reader

end KeywordIndex.Shell
