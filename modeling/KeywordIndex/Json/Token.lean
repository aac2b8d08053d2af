import KeywordIndex.Json.Number
import KeywordIndex.Json.Quote

namespace KeywordIndex.Json

/-!
# Tokens

A JSON text is cut into marks, words, numbers and quotes. The cutting stops at the first of them that is
broken, since nothing behind it can be reached.
-/

/-- A piece of a JSON text. -/
inductive Token where
  | openList
  | closeList
  | openObject
  | closeObject
  | comma
  | colon
  | null
  | bool (b : Bool)
  | number (n : Number)
  | string (q : Quote)
  /-- A text at which no value begins, or a broken word. -/
  | broken (fault : Fault)
  deriving DecidableEq, Repr

/-- Space between tokens. -/
def isSpace (c : Char) : Bool := c == ' ' || c == '\n' || c == '\t' || c == '\r'

/-- The token of one character. -/
def mark? (c : Char) : Option Token :=
  if c = '[' then some .openList
  else if c = ']' then some .closeList
  else if c = '\x7b' then some .openObject
  else if c = '\x7d' then some .closeObject
  else if c = ',' then some .comma
  else if c = ':' then some .colon
  else none

/-- Reads the letters `word` of the word that stands for `token`. -/
def readWord (token : Token) (word : List Char) (cs : List Char) : Token × Nat :=
  let found := cs.take word.length
  if found = word then (token, word.length)
  else if found.isPrefixOf word then (.broken .cutValue, 0)
  else (.broken .expectedWord, 0)

/-- Reads the token that begins with `c`, and says how many characters of `cs` belong to it. -/
def readToken (c : Char) (cs : List Char) : Token × Nat :=
  match mark? c with
  | some token => (token, 0)
  | none =>
    if c = '"' then
      let sized := readQuote cs
      (.string sized.quote, sized.size)
    else if c = '-' then
      let (n, used) := readNumber true cs
      (.number n, used)
    else if isDigit c then
      let (n, used) := readNumber false (c :: cs)
      (.number n, used - 1)
    else if c = 'n' then readWord .null "ull".toList cs
    else if c = 't' then readWord (.bool true) "rue".toList cs
    else if c = 'f' then readWord (.bool false) "alse".toList cs
    else (.broken .expectedValue, 0)

/-- Whether nothing behind the token can be reached. -/
def Token.isLast : Token → Bool
  | broken _ => true
  | string q => q.ending != .closed
  | number n => n.ending != .complete
  | _ => false

/-- The tokens of a text. -/
def tokens : List Char → List Token
  | [] => []
  | c :: cs =>
    if isSpace c then tokens cs
    else
      let (token, used) := readToken c cs
      if token.isLast then [token] else token :: tokens (cs.drop used)
termination_by cs => cs.length
decreasing_by all_goals grind

end KeywordIndex.Json
