namespace KeywordIndex.Glob

/-!
# Glob patterns

In a pattern `?` stands for any character, `*` for any text, and brackets for one of some characters or,
after an exclamation mark, for any other. A component `**` stands for any number of components. A
pattern matches a text as a whole, and slashes and leading dots are characters like all others. Main
statement: `Pattern.matches_eq`, matching row by row finds what the meaning of the parts says.
-/

/-- A member of a class of characters. -/
inductive Member where
  | single (c : Char)
  | range (first last : Char)
  deriving DecidableEq, Repr

/-- Whether the member stands for the character. -/
def Member.contains (m : Member) (c : Char) : Bool :=
  match m with
  | single d => c == d
  | range first last => first ≤ c && c ≤ last

/-- A part of a pattern. -/
inductive Token where
  | char (c : Char)
  | anyChar
  /-- Any text. -/
  | anyText
  /-- Any number of components. -/
  | anyComponents
  | oneOf (members : List Member)
  | noneOf (members : List Member)
  deriving DecidableEq, Repr

/-- Why a pattern is not valid. -/
inductive FaultKind where
  /-- More than two stars in a row. -/
  | tooManyStars
  /-- Two stars that are not a component. -/
  | partialComponent
  /-- A bracket without its partner or with nothing inside. -/
  | badClass
  deriving DecidableEq, Repr

/-- What is wrong with a pattern, and before which character. -/
structure Fault where
  position : Nat
  kind : FaultKind
  deriving DecidableEq, Repr

/-- The reported text. -/
def Fault.message (f : Fault) : String :=
  let reason :=
    match f.kind with
    | .tooManyStars => "wildcards are either regular `*` or recursive `**`"
    | .partialComponent => "recursive wildcards must form a single path component"
    | .badClass => "invalid range pattern"
  s!"Pattern syntax error near position {f.position}: {reason}"

/-- The members written between the brackets of a class. -/
def members : List Char → List Member
  | first :: '-' :: last :: rest => .range first last :: members rest
  | c :: rest => .single c :: members rest
  | [] => []

/-- A part of a pattern and the number of characters that it has after its first. -/
abbrev Sized := Token × Nat

/-- Reads a class after its opening bracket, which is at `position`. The first character inside is a
member even if it is a closing bracket. -/
def readClass (position : Nat) (cs : List Char) : Except Fault Sized :=
  let (negated, inside) :=
    match cs with
    | '!' :: rest => (true, rest)
    | _ => (false, cs)
  match inside with
  | first :: rest =>
    if rest.contains ']' then
      let written := first :: rest.takeWhile (· ≠ ']')
      let size := written.length + 1 + if negated then 1 else 0
      .ok (if negated then .noneOf (members written) else .oneOf (members written), size)
    else .error ⟨position, .badClass⟩
  | [] => .error ⟨position, .badClass⟩

/-- Reads stars after the first, which is at `position` and follows the character `before`. -/
def readStars (position : Nat) (before : Option Char) (cs : List Char) : Except Fault Sized :=
  match (cs.takeWhile (· = '*')).length with
  | 0 => .ok (.anyText, 0)
  | 1 =>
    if before = none ∨ before = some '/' then
      match cs.drop 1 with
      | [] => .ok (.anyComponents, 1)
      | '/' :: _ => .ok (.anyComponents, 2)
      | _ => .error ⟨position + 2, .partialComponent⟩
    else .error ⟨position - 1, .partialComponent⟩
  | _ => .error ⟨position + 2, .tooManyStars⟩

/-- Reads the part that begins with `c`. -/
def readToken (position : Nat) (before : Option Char) (c : Char) (cs : List Char) :
    Except Fault Sized :=
  if c = '?' then .ok (.anyChar, 0)
  else if c = '*' then readStars position before cs
  else if c = '[' then readClass position cs
  else .ok (.char c, 0)

/-- Adds a part to those read so far, last first. A second `**` after others says nothing new. -/
def addToken (token : Token) (read : List Token) : List Token :=
  match token, read with
  | .anyComponents, .anyComponents :: _ :: _ => read
  | _, _ => token :: read

/-- Reads a pattern from `position`, after the character `before` and the parts `read`. -/
def readFrom (position : Nat) (before : Option Char) (read : List Token) :
    List Char → Except Fault (List Token)
  | [] => .ok read.reverse
  | c :: cs =>
    match readToken position before c cs with
    | .error fault => .error fault
    | .ok (token, used) =>
      readFrom (position + used + 1) (c :: cs.take used).getLast? (addToken token read)
        (cs.drop used)
termination_by cs => cs.length
decreasing_by simp only [List.length_drop, List.length_cons]; omega

/-- A valid pattern. -/
structure Pattern where
  tokens : List Token
  deriving DecidableEq

/-- Reads a pattern. -/
def Pattern.ofText (text : List Char) : Except Fault Pattern := (readFrom 0 none [] text).map Pattern.mk

/-- The ends of a text, the text itself included. -/
def suffixes : List Char → List (List Char)
  | [] => [[]]
  | c :: cs => (c :: cs) :: suffixes cs

/-- The ends of a text behind its slashes, and the empty end. -/
def laterComponents : List Char → List (List Char)
  | [] => [[]]
  | c :: cs => if c = '/' then cs :: laterComponents cs else laterComponents cs

/-- Whether the parts of a pattern match a text. -/
def matchesTokens : List Token → List Char → Bool
  | [], text => text.isEmpty
  | .anyText :: rest, text => (suffixes text).any (matchesTokens rest)
  | .anyComponents :: rest, text =>
    matchesTokens rest text || (laterComponents text).any (matchesTokens rest)
  | .char d :: rest, c :: cs => c == d && matchesTokens rest cs
  | .anyChar :: rest, _ :: cs => matchesTokens rest cs
  | .oneOf ms :: rest, c :: cs => ms.any (·.contains c) && matchesTokens rest cs
  | .noneOf ms :: rest, c :: cs => !ms.any (·.contains c) && matchesTokens rest cs
  | _, [] => false

/-- For each end of a text, whether any text may stand before something that fits: `row` says at which
ends that is so. -/
def afterText : List Char → List Bool → List Bool
  | [], row => [row.headD false]
  | _ :: cs, row =>
    let later := afterText cs row.tail
    (row.headD false || later.headD false) :: later

/-- For each end of a text, whether what fits begins behind one of its slashes or is at the very end. -/
def afterSlash : List Char → List Bool → List Bool
  | [], row => [row.headD false]
  | c :: cs, row =>
    let later := afterSlash cs row.tail
    ((c = '/' && row.tail.headD false) || later.headD false) :: later

/-- For each end of a text, whether it begins with a character of the class and fits behind it. -/
def afterChar (inClass : Char → Bool) : List Char → List Bool → List Bool
  | [], _ => [false]
  | c :: cs, row => (inClass c && row.tail.headD false) :: afterChar inClass cs row.tail

/-- For each end of a text, whether the parts of a pattern match it. -/
def matchRow (text : List Char) : List Token → List Bool
  | [] => (suffixes text).map List.isEmpty
  | token :: rest =>
    let row := matchRow text rest
    match token with
    | .anyText => afterText text row
    | .anyComponents => row.zipWith (· || ·) (afterSlash text row)
    | .char d => afterChar (· == d) text row
    | .anyChar => afterChar (fun _ => true) text row
    | .oneOf ms => afterChar (fun c => ms.any (·.contains c)) text row
    | .noneOf ms => afterChar (fun c => !ms.any (·.contains c)) text row

/-- Whether the pattern matches the text. The parts are matched from the last to the first, each at all
ends of the text at once, so the work grows with the product of the two lengths. -/
def Pattern.matches (p : Pattern) (text : List Char) : Bool :=
  (matchRow text p.tokens).headD false

theorem headD_suffixes (fits : List Char → Bool) (text : List Char) :
    ((suffixes text).map fits).headD false = fits text := by
  cases text <;> simp [suffixes]

theorem afterText_suffixes (fits : List Char → Bool) (text : List Char) :
    afterText text ((suffixes text).map fits) =
      (suffixes text).map fun cs => (suffixes cs).any fits := by
  induction text with
  | nil => simp [afterText, suffixes]
  | cons c cs ih =>
    simp only [afterText, suffixes, List.map_cons, List.tail_cons, ih, headD_suffixes]
    simp

theorem afterSlash_suffixes (fits : List Char → Bool) (text : List Char) :
    afterSlash text ((suffixes text).map fits) =
      (suffixes text).map fun cs => (laterComponents cs).any fits := by
  induction text with
  | nil => simp [afterSlash, suffixes, laterComponents]
  | cons c cs ih =>
    simp only [afterSlash, suffixes, List.map_cons, List.tail_cons, ih, headD_suffixes]
    by_cases h : c = '/' <;> simp [laterComponents, h]

theorem afterChar_suffixes (inClass : Char → Bool) (fits : List Char → Bool) (text : List Char) :
    afterChar inClass text ((suffixes text).map fits) =
      (suffixes text).map fun
        | [] => false
        | c :: cs => inClass c && fits cs := by
  induction text with
  | nil => simp [afterChar, suffixes]
  | cons c cs ih =>
    simp only [afterChar, suffixes, List.map_cons, List.tail_cons, ih, headD_suffixes]

theorem matchRow_eq (tokens : List Token) (text : List Char) :
    matchRow text tokens = (suffixes text).map (matchesTokens tokens) := by
  induction tokens with
  | nil => rfl
  | cons token rest ih =>
    cases token <;>
      simp only [matchRow, ih, afterText_suffixes, afterSlash_suffixes, afterChar_suffixes,
        List.zipWith_map_left, List.zipWith_map_right, List.zipWith_self] <;>
      refine List.map_congr_left fun cs _ => ?_ <;>
      cases cs <;> simp [matchesTokens]

theorem Pattern.matches_eq (p : Pattern) (text : List Char) :
    p.matches text = matchesTokens p.tokens text := by
  rw [Pattern.matches, matchRow_eq, headD_suffixes]

end KeywordIndex.Glob
