namespace KeywordIndex.Shell

/-!
# Command scripts

A script is a sequence of octets, each taken for one character. It is read into commands, whose words
may hold parameters, the output of other commands and calculations.
-/

/-- What happens to a parameter that has no value. -/
inductive Missing where
  /-- The word takes its place. -/
  | replaced
  /-- The word takes its place and becomes its value. -/
  | assigned
  /-- The script ends with the word as a complaint. -/
  | reported
  /-- Nothing takes its place, and the word that of every value. -/
  | kept
  deriving DecidableEq, Repr

/-- Which part of a value is cut off. -/
structure Trim where
  fromEnd : Bool
  longest : Bool
  deriving DecidableEq, Repr

/-- Where a redirection leads to. -/
inductive Stream where
  | read
  | write
  | append
  | readWrite
  /-- Another descriptor, or none at all for a dash. -/
  | duplicate
  deriving DecidableEq, Repr

mutual

/-- A part of a word. What stands in quotes is neither split nor taken for a pattern. -/
inductive Piece where
  | text (cs : List Char) (quoted : Bool)
  /-- A quotation mark; a word with one is a word even if nothing else is in it. -/
  | quote
  | parameter (name : List Char) (use : Use) (quoted : Bool)
  | output (command : Option Command) (quoted : Bool)
  | calculation (expression : List Piece) (quoted : Bool)

/-- How a parameter is used. -/
inductive Use where
  | value
  | length
  /-- An empty value counts as missing too if `orEmpty`. -/
  | missing (case : Missing) (orEmpty : Bool) (word : List Piece)
  | trim (trim : Trim) (pattern : List Piece)
  /-- Braces with something else in them. -/
  | invalid

/-- A change of a descriptor. -/
inductive Redirection where
  | stream (descriptor : Nat) (stream : Stream) (target : List Piece)
  /-- The text in the script with the given number. -/
  | document (descriptor number : Nat)

/-- A command of a script. -/
inductive Command where
  | simple (line : Nat) (assignments : List (List Char × List Piece)) (words : List (List Piece))
      (redirections : List Redirection)
  | pipeline (commands : List Command)
  | negated (command : Command)
  | both (first second : Command)
  | either (first second : Command)
  | sequence (commands : List Command)
  | background (command : Command)
  | subshell (line : Nat) (body : Option Command) (redirections : List Redirection)
  | redirected (line : Nat) (body : Command) (redirections : List Redirection)
  /-- Nothing between braces. -/
  | nothing
  | conditional (condition body : Option Command) (otherwise : Option Command)
  /-- Repeats the body while the status of the condition is zero, or else until it is. -/
  | loop (whileZero : Bool) (condition body : Option Command)
  | each (line : Nat) (name : List Char) (words : List (List Piece)) (body : Option Command)
  | choice (line : Nat) (word : List Piece) (branches : List Branch)
  | function (name : List Char) (body : Command)

/-- A branch of a choice. -/
inductive Branch where
  | mk (patterns : List (List Piece)) (body : Option Command)

end

/-- A word, before its parameters are known. -/
abbrev Word := List Piece

instance : Inhabited Command := ⟨.nothing⟩

/-- The text of a document in a script. -/
structure Document where
  number : Nat
  text : Word

/-- What is wrong with a script, and in which line. -/
structure SyntaxFault where
  line : Nat
  message : String
  deriving DecidableEq, Repr

/-- The letters and the underscore. -/
def isNameStart (c : Char) : Bool := c.isAlpha || c == '_'

/-- A character of a name. -/
def isNameChar (c : Char) : Bool := c.isAlphanum || c == '_'

/-- Whether the text is a name. -/
def isGoodName (cs : List Char) : Bool :=
  match cs with
  | [] => false
  | c :: rest => isNameStart c && rest.all isNameChar

/-- The parameters that are no names and have one character. -/
def isSpecialParameter (c : Char) : Bool :=
  c.isDigit || c == '#' || c == '?' || c == '$' || c == '!' || c == '-' || c == '*' || c == '@'

end KeywordIndex.Shell
