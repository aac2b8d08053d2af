import KeywordIndex.Shell.Machine

namespace KeywordIndex.Shell

/-!
# Conditions

`test` finds out whether a condition on texts, numbers or files holds. A condition is read from its words
in order, and a word that looks like an operator is one only where an operator may stand.
-/

/-- A question about a single word. -/
inductive Question where
  | isEmpty
  | isNotEmpty
  | exists
  | isFile
  | isDirectory
  | hasContent
  | isReadable
  | isWritable
  | isExecutable
  | isDevice
  /-- No descriptor leads to a terminal. -/
  | isTerminal
  /-- A kind of thing that is nowhere on the disk. -/
  | isOther
  deriving DecidableEq, Repr

/-- A comparison of two words. -/
inductive Comparison where
  | sameText
  | otherText
  | before
  | after
  | equal
  | notEqual
  | less
  | lessEqual
  | greater
  | greaterEqual
  | sameFile
  /-- All files are of the same age. -/
  | age
  deriving DecidableEq, Repr

/-- A word of a condition that is not an operand. -/
inductive ConditionOperator where
  | question (q : Question)
  | comparison (c : Comparison)
  | not
  | and
  | or
  | openParen
  | closeParen
  deriving DecidableEq, Repr

/-- The operators as they are written. -/
def conditionOperator? (word : List Char) : Option ConditionOperator :=
  match String.ofList word with
  | "-z" => some (.question .isEmpty)
  | "-n" => some (.question .isNotEmpty)
  | "-e" => some (.question .exists)
  | "-f" => some (.question .isFile)
  | "-d" => some (.question .isDirectory)
  | "-s" => some (.question .hasContent)
  | "-r" => some (.question .isReadable)
  | "-w" => some (.question .isWritable)
  | "-x" => some (.question .isExecutable)
  | "-c" => some (.question .isDevice)
  | "-t" => some (.question .isTerminal)
  | "-O" | "-G" => some (.question .exists)
  | "-b" | "-g" | "-h" | "-k" | "-L" | "-p" | "-S" | "-u" => some (.question .isOther)
  | "=" => some (.comparison .sameText)
  | "!=" => some (.comparison .otherText)
  | "<" => some (.comparison .before)
  | ">" => some (.comparison .after)
  | "-eq" => some (.comparison .equal)
  | "-ne" => some (.comparison .notEqual)
  | "-lt" => some (.comparison .less)
  | "-le" => some (.comparison .lessEqual)
  | "-gt" => some (.comparison .greater)
  | "-ge" => some (.comparison .greaterEqual)
  | "-ef" => some (.comparison .sameFile)
  | "-nt" | "-ot" => some (.comparison .age)
  | "!" => some .not
  | "-a" => some .and
  | "-o" => some .or
  | "(" => some .openParen
  | ")" => some .closeParen
  | _ => none

/-- Whether the word compares its neighbours. -/
def isComparison (word : List Char) : Bool :=
  match conditionOperator? word with
  | some (.comparison _) => true
  | _ => false

/-- The operator that the first of some words is, given the words behind it. -/
def operatorAt (words : List (List Char)) : Option ConditionOperator :=
  match words with
  | [] => none
  | word :: rest =>
    match conditionOperator? word with
    | some (.question q) =>
      let isOperand :=
        match rest with
        | [] => true
        | [_] => false
        | next :: _ => isComparison next
      if isOperand then none else some (.question q)
    | some .openParen => if rest.isEmpty then none else some .openParen
    | other => other

/-- What is wrong with a condition. -/
abbrev ConditionFault := List Char

/-- Reads a condition, of which the words from the current one on are kept. -/
abbrev ConditionReader := StateT (List (List Char)) (Except ConditionFault)

/-- A decimal number in a condition. -/
def conditionNumber (word : List Char) : Except ConditionFault Int :=
  let trimmed := word.dropWhile isCalculationSpace
  let (negative, digits) :=
    match trimmed with
    | '-' :: rest => (true, rest)
    | '+' :: rest => (false, rest)
    | _ => (false, trimmed)
  let number := digits.takeWhile Char.isDigit
  let value : Int := if negative then -(numberIn 10 number : Int) else numberIn 10 number
  if number.isEmpty || !(digits.drop number.length).all isCalculationSpace || clamped value ≠ value then
    .error ("Illegal number: ".toList ++ word)
  else .ok value

namespace Session

/-- What is at the path that the octets name. -/
def nodeAt? (s : Session) (path : List Char) : Option DiskNode :=
  ((s.world.disk.find (s.pathOf path)).toOption).map (·.2)

/-- Answers a question about a word. -/
def answer (s : Session) (q : Question) (word : List Char) : Bool :=
  match q, s.nodeAt? word with
  | .isEmpty, _ => word.isEmpty
  | .isNotEmpty, _ => !word.isEmpty
  | .isOther, _ | .isTerminal, _ => false
  | _, none => false
  | .exists, some _ | .isReadable, some _ | .isWritable, some _ => true
  | .isFile, some (.file _ _) | .isFile, some .program => true
  | .isDirectory, some .directory => true
  | .hasContent, some (.file content _) => !content.isEmpty
  | .hasContent, some .directory | .hasContent, some .program => true
  | .isExecutable, some (.file _ executable) => executable
  | .isExecutable, some .directory | .isExecutable, some .program => true
  | .isDevice, some .sink => true
  | _, some _ => false

/-- Compares two words. -/
def compare (s : Session) (c : Comparison) (a b : List Char) : Except ConditionFault Bool := do
  let numbers (holds : Int → Int → Bool) : Except ConditionFault Bool := do
    return holds (← conditionNumber a) (← conditionNumber b)
  match c with
  | .sameText => return a == b
  | .otherText => return a != b
  | .before => return a < b
  | .after => return b < a
  | .equal => numbers (· == ·)
  | .notEqual => numbers (· != ·)
  | .less => numbers (· < ·)
  | .lessEqual => numbers (· ≤ ·)
  | .greater => numbers (· > ·)
  | .greaterEqual => numbers (· ≥ ·)
  | .sameFile =>
    let place (word : List Char) := ((s.world.disk.find (s.pathOf word)).toOption).map (·.1)
    return (place a).isSome && place a == place b
  | .age => return false

mutual

/-- Reads a condition whose parts are joined by `-o`. The current word is the given operator, or else an
operand. -/
def anyOf (s : Session) : Nat → Option ConditionOperator → ConditionReader Bool
  | 0, _ => return false
  | fuel + 1, operator => do
    let first ← allOf s fuel operator
    if operatorAt ((← get).drop 1) = some .or then do
      modify (·.drop 2)
      let others ← anyOf s fuel (operatorAt (← get))
      return first || others
    else return first

/-- Reads a condition whose parts are joined by `-a`. -/
def allOf (s : Session) : Nat → Option ConditionOperator → ConditionReader Bool
  | 0, _ => return false
  | fuel + 1, operator => do
    let first ← unlessNot s fuel operator
    if operatorAt ((← get).drop 1) = some .and then do
      modify (·.drop 2)
      let others ← allOf s fuel (operatorAt (← get))
      return first && others
    else return first

/-- Reads a condition with exclamation marks before it. -/
def unlessNot (s : Session) : Nat → Option ConditionOperator → ConditionReader Bool
  | 0, _ => return false
  | fuel + 1, operator =>
    if operator = some .not then do
      let rest := (← get).drop 1
      if rest.isEmpty then return true
      set rest
      return !(← unlessNot s fuel (operatorAt rest))
    else part s fuel operator

/-- Reads a condition that is not joined of others. The last of its words stays the current one. -/
def part (s : Session) : Nat → Option ConditionOperator → ConditionReader Bool
  | 0, _ => return false
  | fuel + 1, operator => do
    match operator, ← get with
    | _, [] => return false
    | some .openParen, _ :: inside => do
      set inside
      let first := operatorAt inside
      if first = some .closeParen then return false
      let result ← anyOf s fuel first
      modify (·.drop 1)
      if operatorAt (← get) ≠ some .closeParen then throw "closing paren expected".toList
      return result
    | some (.question _), [word] => throw (word ++ ": argument expected".toList)
    | some (.question q), _ :: argument :: rest => do
      set (argument :: rest)
      if q = .isTerminal then discard (conditionNumber argument)
      return s.answer q argument
    | _, word :: rest =>
      match operatorAt rest, rest with
      | some (.comparison _), [name] => throw (name ++ ": argument expected".toList)
      | some (.comparison c), _ :: argument :: behind => do
        set (argument :: behind)
        s.compare c word argument
      | _, _ => return !word.isEmpty

end

/-- Whether a condition of some words holds. With few of them, the outer ones tell what they are. -/
def holdsOf (s : Session) (words : List (List Char)) : Except ConditionFault Bool := do
  let compares :=
    match words with
    | [_, name, _] => isComparison name
    | _ => false
  let inParens :=
    (words.length = 3 || words.length = 4) && words.head? = some ['('] && words.getLast? = some [')']
  let words := if inParens && !compares then (words.drop 1).dropLast else words
  let first := if compares then none else operatorAt words
  let (result, rest) ← (anyOf s (4 * words.length + 8) first).run words
  match rest with
  | word :: _ :: _ => throw (word ++ ": unexpected operator".toList)
  | _ => return result

/-- Whether a condition holds. -/
def holds (s : Session) : List (List Char) → Except ConditionFault Bool
  | [] => return false
  | words@(first :: rest) => do
    let compares :=
      match words with
      | [_, name, _] => isComparison name
      | _ => false
    let inParens := first = ['('] && words.getLast? = some [')']
    if first = ['!'] && (words.length = 3 || words.length = 4) && !compares && !inParens then
      return !(← holds s rest)
    else holdsOf s words

end Session

end KeywordIndex.Shell
