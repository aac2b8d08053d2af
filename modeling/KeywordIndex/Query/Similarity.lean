namespace KeywordIndex.Query

/-!
# Similarity of two texts

The Jaro measure counts the characters that two texts share within a window and how many of these stand
in another order. The Winkler measure adds to it if the texts are similar and begin alike.
-/

/-- A character of the second text, and whether it is taken by one of the first. -/
abbrev Mark := Char × Bool

/-- Takes the first free `c` after the first `skip` marks and among the `span` marks that follow. -/
def take? (c : Char) (skip span : Nat) : List Mark → Option (List Mark)
  | [] => none
  | mark :: marks =>
    match skip, span with
    | skip + 1, _ => (take? c skip span marks).map (mark :: ·)
    | 0, 0 => none
    | 0, span + 1 =>
      if mark.1 = c && !mark.2 then some ((c, true) :: marks)
      else (take? c 0 span marks).map (mark :: ·)

/-- The characters of a first text that take one of a second, and the marks of the second after it. The
text begins at `place` and each character looks at most `reach` places to either side. -/
def matching (reach place : Nat) : List Char → List Mark → List Char × List Mark
  | [], marks => ([], marks)
  | c :: cs, marks =>
    let skip := place - reach
    match take? c skip (place + reach + 1 - skip) marks with
    | some marks =>
      let (found, marks) := matching reach (place + 1) cs marks
      (c :: found, marks)
    | none => matching reach (place + 1) cs marks

/-- The number of places at which two lists differ. -/
def differences (as bs : List Char) : Nat := ((as.zip bs).filter fun (a, b) => a ≠ b).length

/-- The Jaro measure of two texts. -/
def jaro (a b : List Char) : Float :=
  if a.isEmpty && b.isEmpty then 1.0
  else
    let reach := max a.length b.length / 2 - 1
    let (found, marks) := matching reach 0 a (b.map (·, false))
    let taken := (marks.filter (·.2)).map (·.1)
    let shared := found.length
    if shared = 0 then 0.0
    else
      let m := Float.ofNat shared
      let ordered := Float.ofNat (shared - differences found taken / 2)
      (m / Float.ofNat a.length + m / Float.ofNat b.length + ordered / m) / 3.0

/-- The number of characters that two texts have in common at their start. -/
def commonStart (a b : List Char) : Nat := ((a.zip b).takeWhile fun (c, d) => c = d).length

/-- The Jaro measure, raised for texts that are similar and begin with up to four equal characters. -/
def similarity (a b : List Char) : Float :=
  let measure := jaro a b
  if 0.7 < measure then
    measure + 0.1 * Float.ofNat (min 4 (commonStart a b)) * (1.0 - measure)
  else measure

end KeywordIndex.Query
