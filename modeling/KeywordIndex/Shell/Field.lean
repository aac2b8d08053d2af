import KeywordIndex.Shell.Pattern

namespace KeywordIndex.Shell

/-!
# Fields

A word becomes fields once its parameters are known. Values are split at separators unless they are
quoted. Main statement: `fields_of_quoted`, a quoted text is one field whatever is in it.
-/

/-- A part of a word whose parameters are known. -/
inductive Atom where
  /-- Separators that are not quoted and come from a value end fields if `splits`. -/
  | char (c : Char) (quoted splits : Bool)
  /-- A quotation mark, with which there is a field even if nothing is in it. -/
  | quote
  /-- The end of an argument of several. -/
  | boundary
  deriving DecidableEq, Repr

/-- The atoms of a value. -/
def Atom.ofValue (quoted splits : Bool) (cs : List Char) : List Atom :=
  cs.map fun c => .char c quoted splits

/-- The characters without a mark of their quotes. -/
def textOfAtoms (atoms : List Atom) : List Char :=
  atoms.filterMap fun
    | .char c _ _ => some c
    | _ => none

/-- The atoms as a pattern. -/
def patternOfAtoms (atoms : List Atom) : Pattern :=
  atoms.filterMap fun
    | .char c quoted _ => some ⟨c, quoted⟩
    | _ => none

/-- Fields that are being put together. -/
structure Fields where
  /-- The complete fields, last first. -/
  done : List Pattern := []
  /-- The field that is being put together, backwards. -/
  current : Option Pattern := none
  /-- White space has ended a field, so that a separator behind it ends nothing more. -/
  ended : Bool := false

namespace Fields

/-- Adds a character. -/
def add (f : Fields) (c : PatternChar) : Fields :=
  { f with current := some (c :: f.current.getD []), ended := false }

/-- Makes sure that there is a field. -/
def start (f : Fields) : Fields := { f with current := some (f.current.getD []), ended := false }

/-- Ends the field, if there is one. -/
def close (f : Fields) : Fields :=
  match f.current with
  | some cs => ⟨cs.reverse :: f.done, none, f.ended⟩
  | none => f

/-- Takes a white separator. -/
def blank (f : Fields) : Fields :=
  match f.current with
  | some _ => { f.close with ended := true }
  | none => f

/-- Takes a separator that is not white. -/
def separator (f : Fields) : Fields :=
  match f.current with
  | some _ => { f.close with ended := false }
  | none => if f.ended then { f with ended := false } else { f with done := [] :: f.done }

/-- Takes an atom. -/
def step (separators : List Char) (f : Fields) : Atom → Fields
  | .char c quoted splits =>
    if splits && !quoted && separators.contains c then
      if c == ' ' || c == '\t' || c == '\n' then f.blank else f.separator
    else f.add ⟨c, quoted⟩
  | .quote => f.start
  | .boundary => { f.close with ended := false }

end Fields

/-- The fields of a word, each of which may be a pattern of names. -/
def fieldsOfAtoms (separators : List Char) (atoms : List Atom) : List Pattern :=
  (atoms.foldl (Fields.step separators) {}).close.done.reverse

theorem foldl_add (separators : List Char) (splits : Bool) (cs : List Char) (f : Fields) :
    (Atom.ofValue true splits cs).foldl (Fields.step separators) f =
      match cs with
      | [] => f
      | _ => { f with
        current := some ((Pattern.ofText cs).reverse ++ f.current.getD [])
        ended := false } := by
  induction cs generalizing f with
  | nil => rfl
  | cons c cs ih =>
    simp only [Atom.ofValue, List.map_cons, List.foldl_cons] at ih ⊢
    rw [ih]
    cases cs <;> simp [Fields.step, Fields.add, Pattern.ofText]

/-- A quoted text is one field whatever is in it. -/
theorem fields_of_quoted (separators cs : List Char) (splits : Bool) :
    fieldsOfAtoms separators (.quote :: Atom.ofValue true splits cs) = [Pattern.ofText cs] := by
  rw [fieldsOfAtoms, List.foldl_cons, foldl_add]
  cases cs <;> simp [Fields.step, Fields.start, Fields.close, Pattern.ofText]

/-- The characters of a field. -/
def textOfField (field : Pattern) : List Char := field.map (·.char)

end KeywordIndex.Shell
