import KeywordIndex.Glob.Pattern

namespace KeywordIndex.Shell

open Glob (suffixes)

/-!
# Patterns of a script

In a pattern `?` stands for any character, `*` for any text and brackets for one of some characters.
Quoted characters stand for themselves. Main statement: `matches_ofText`, a pattern of quoted characters
matches their text and nothing else.
-/

/-- A character of a pattern. -/
structure PatternChar where
  char : Char
  quoted : Bool
  deriving DecidableEq, Repr

/-- A pattern. -/
abbrev Pattern := List PatternChar

/-- A part of a pattern. -/
inductive PatternPart where
  | one (inClass : Char → Bool)
  | any

/-- Whether the character, not quoted, has the given meaning. -/
def PatternChar.means (p : PatternChar) (c : Char) : Bool := p.char == c && !p.quoted

/-- The named classes of characters. -/
def namedClass? (name : List Char) : Option (Char → Bool) :=
  match String.ofList name with
  | "alnum" => some Char.isAlphanum
  | "alpha" => some Char.isAlpha
  | "blank" => some fun c => c == ' ' || c == '\t'
  | "cntrl" => some fun c => c.toNat < 32 || c.toNat == 127
  | "digit" => some Char.isDigit
  | "graph" => some fun c => 32 < c.toNat && c.toNat < 127
  | "lower" => some Char.isLower
  | "print" => some fun c => 32 ≤ c.toNat && c.toNat < 127
  | "punct" => some fun c => 32 < c.toNat && c.toNat < 127 && !c.isAlphanum
  | "space" => some fun c => c == ' ' || (9 ≤ c.toNat && c.toNat ≤ 13)
  | "upper" => some Char.isUpper
  | "xdigit" => some fun c =>
    c.isDigit || ('a' ≤ c && c ≤ 'f') || ('A' ≤ c && c ≤ 'F')
  | _ => none

/-- Reads a named class behind its opening bracket: the class and what follows it. -/
def readNamed (pattern : Pattern) : Option ((Char → Bool) × Pattern) :=
  match pattern with
  | colon :: rest =>
    if colon.means ':' then
      let name := rest.takeWhile (!·.means ':')
      match rest.drop name.length with
      | _ :: close :: after =>
        if close.means ']' then
          (namedClass? (name.map (·.char))).map fun inClass => (inClass, after)
        else none
      | _ => none
    else none
  | [] => none

/-- A character of a bracket expression without the backslash before it. -/
def unescapedMember : Pattern → Option (Char × Pattern)
  | p :: q :: rest => if p.means '\\' then some (q.char, rest) else some (p.char, q :: rest)
  | [p] => some (p.char, [])
  | [] => none

/-- Reads the members of a bracket expression up to its end. The first of them may be a closing
bracket. -/
def readMembers (first : Bool) (inClass : Char → Bool) : Nat → Pattern →
    Option ((Char → Bool) × Pattern)
  | 0, _ => none
  | _ + 1, [] => none
  | fuel + 1, p :: rest =>
    if p.means ']' && !first then some (inClass, rest)
    else
      let named := if p.means '[' then readNamed rest else none
      match named with
      | some (c, after) => readMembers false (fun d => inClass d || c d) fuel after
      | none =>
        match unescapedMember (p :: rest) with
        | none => none
        | some (low, after) =>
          let range :=
            match after with
            | dash :: next :: more =>
              if dash.means '-' && !next.means ']' then unescapedMember (next :: more) else none
            | _ => none
          match range with
          | some (high, after) =>
            readMembers false (fun d => inClass d || (low ≤ d && d ≤ high)) fuel after
          | none => readMembers false (fun d => inClass d || d == low) fuel after

/-- The parts of a pattern. A bracket without its partner stands for itself. -/
def patternParts : Nat → Pattern → List PatternPart
  | 0, _ => []
  | _ + 1, [] => []
  | fuel + 1, p :: rest =>
    let plain := PatternPart.one (· == p.char) :: patternParts fuel rest
    if p.quoted then plain
    else
      match p.char with
      | '*' => .any :: patternParts fuel rest
      | '?' => .one (fun _ => true) :: patternParts fuel rest
      | '\\' =>
        match rest with
        | q :: more => .one (· == q.char) :: patternParts fuel more
        | [] => plain
      | '[' =>
        let (negated, inside) :=
          match rest with
          | bang :: more => if bang.means '!' then (true, more) else (false, rest)
          | [] => (false, rest)
        match readMembers true (fun _ => false) (inside.length + 1) inside with
        | some (inClass, after) =>
          .one (fun c => inClass c != negated) :: patternParts fuel after
        | none => plain
      | _ => plain

/-- The ends of a text that remain after parts of a pattern have been matched, from the longest. -/
def remains : List PatternPart → List (List Char) → List (List Char)
  | [], ends => ends
  | .one inClass :: parts, ends =>
    remains parts <| ends.filterMap fun
      | c :: cs => if inClass c then some cs else none
      | [] => none
  | .any :: parts, ends =>
    remains parts <| match ends with
      | [] => []
      | longest :: _ => suffixes longest

/-- The ends of a text behind what the pattern matches at its start. -/
def Pattern.remainders (pattern : Pattern) (text : List Char) : List (List Char) :=
  remains (patternParts pattern.length pattern) [text]

/-- Whether the pattern matches the whole text. -/
def Pattern.matches (pattern : Pattern) (text : List Char) : Bool :=
  (pattern.remainders text).any List.isEmpty

/-- Characters as a pattern that stands for them. -/
def Pattern.ofText (cs : List Char) : Pattern := cs.map fun c => ⟨c, true⟩

theorem patternParts_ofText (cs : List Char) :
    patternParts cs.length (Pattern.ofText cs) = cs.map fun c => .one (· == c) := by
  induction cs with
  | nil => rfl
  | cons c cs ih =>
    simp only [Pattern.ofText, List.length_cons, List.map_cons, patternParts, ↓reduceIte]
    exact congrArg _ ih

theorem remains_ofText (cs text : List Char) :
    remains (cs.map fun c => .one (· == c)) [text] =
      if cs.isPrefixOf text then [text.drop cs.length] else [] := by
  induction cs generalizing text with
  | nil => simp [remains]
  | cons c cs ih =>
    have none_left : ∀ ds : List Char, remains (ds.map fun c => PatternPart.one (· == c)) [] = [] := by
      intro ds
      induction ds with
      | nil => rfl
      | cons d ds ih => simpa [remains] using ih
    cases text with
    | nil => simp [remains, none_left]
    | cons d text =>
      by_cases h : d = c
      · subst h
        simp [remains, ih]
      · have : ¬c = d := fun e => h e.symm
        simp [remains, h, this, none_left]

theorem Pattern.matches_ofText (cs text : List Char) :
    (Pattern.ofText cs).matches text = (cs == text) := by
  have length : (Pattern.ofText cs).length = cs.length := by simp [Pattern.ofText]
  rw [Pattern.matches, Pattern.remainders, length, patternParts_ofText, remains_ofText]
  by_cases h : cs <+: text
  · obtain ⟨rest, rfl⟩ := h
    cases rest <;> simp
  · have : cs ≠ text := fun e => h (e ▸ List.prefix_refl cs)
    simp [h, this]

/-- Cuts off the part of a text that the pattern matches. -/
def Pattern.cut (pattern : Pattern) (fromEnd longest : Bool) (text : List Char) : List Char :=
  if fromEnd then
    let fits := (suffixes text).filter pattern.matches
    match if longest then fits.head? else fits.getLast? with
    | some tail => text.take (text.length - tail.length)
    | none => text
  else
    let rests := pattern.remainders text
    (if longest then rests.getLast? else rests.head?).getD text

/-- The pattern has a character with a meaning of its own. -/
def Pattern.isProper (pattern : Pattern) : Bool :=
  pattern.any fun p => p.means '*' || p.means '?' || p.means '['

end KeywordIndex.Shell
