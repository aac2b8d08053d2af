namespace KeywordIndex.Text

/-!
# Cutting and searching text

Pieces between separators, the lines of a text, and the first place where one text occurs in another.
Main statements: `join_split`, the pieces joined by their separator are the text, and `eq_of_cutAt?`, the
text before a cut, the text that was looked for and the rest are the text.
-/

variable {α : Type}

/-- The pieces of `cs` between the elements that satisfy `p`; there is always at least one. -/
def splitWhere (p : α → Bool) : List α → List (List α)
  | [] => [[]]
  | c :: cs =>
    if p c then [] :: splitWhere p cs
    else
      match splitWhere p cs with
      | [] => [[c]]
      | piece :: pieces => (c :: piece) :: pieces

/-- The pieces of `cs` between occurrences of `separator`. -/
def split [BEq α] (separator : α) (cs : List α) : List (List α) := splitWhere (· == separator) cs

/-- The pieces written one after another with `separator` between them. -/
def join (separator : List α) : List (List α) → List α
  | [] => []
  | [piece] => piece
  | piece :: pieces => piece ++ separator ++ join separator pieces

theorem splitWhere_ne_nil (p : α → Bool) (cs : List α) : splitWhere p cs ≠ [] := by
  cases cs with
  | nil => simp [splitWhere]
  | cons c cs =>
    rw [splitWhere]
    split
    · simp
    · split <;> simp

/-- The pieces joined by their separator are the text. -/
theorem join_split [BEq α] [LawfulBEq α] (separator : α) (cs : List α) :
    join [separator] (split separator cs) = cs := by
  rw [split]
  induction cs with
  | nil => rfl
  | cons c cs ih =>
    have hne := splitWhere_ne_nil (· == separator) cs
    rw [splitWhere]
    match hs : splitWhere (· == separator) cs, ih with
    | [], _ => exact absurd hs hne
    | [piece], ih =>
      rw [join] at ih
      by_cases h : c = separator <;> simp [h, join, ih]
    | piece :: next :: rest, ih =>
      simp only [join] at ih
      by_cases h : c = separator <;> simp [h, join, ← ih]

/-- What follows `lead`, if the text begins with it. -/
def after? : (lead text : List Char) → Option (List Char)
  | [], text => some text
  | _ :: _, [] => none
  | a :: lead, b :: text => if a = b then after? lead text else none

theorem after?_eq_some_iff {lead text rest : List Char} :
    after? lead text = some rest ↔ text = lead ++ rest := by
  fun_induction after? lead text with
  | case1 text => simp [eq_comm]
  | case2 => simp
  | case3 lead a text ih => simpa using ih
  | case4 a lead b text h => simp [Ne.symm h]

/-- The text before and after the first occurrence of `needle`. -/
def cutAt? (needle : List Char) : List Char → Option (List Char × List Char)
  | [] => (after? needle []).map ([], ·)
  | c :: cs =>
    match after? needle (c :: cs) with
    | some rest => some ([], rest)
    | none => (cutAt? needle cs).map fun (before, rest) => (c :: before, rest)

theorem eq_of_cutAt? {needle cs before rest : List Char} (h : cutAt? needle cs = some (before, rest)) :
    cs = before ++ needle ++ rest := by
  fun_induction cutAt? needle cs generalizing before rest with
  | case1 =>
    simp only [Option.map_eq_some_iff, Prod.mk.injEq] at h
    obtain ⟨r, hr, rfl, rfl⟩ := h
    simpa using after?_eq_some_iff.1 hr
  | case2 c cs r hr =>
    simp only [Option.some.injEq, Prod.mk.injEq] at h
    obtain ⟨rfl, rfl⟩ := h
    simpa using after?_eq_some_iff.1 hr
  | case3 c cs _ ih =>
    simp only [Option.map_eq_some_iff, Prod.mk.injEq] at h
    obtain ⟨⟨b, r⟩, hbr, rfl, rfl⟩ := h
    simp [ih hbr]

/-- Whether `needle` occurs in the text. -/
def occurs (needle text : List Char) : Bool := (cutAt? needle text).isSome

/-- Removes one trailing carriage return. -/
def dropReturn (line : List Char) : List Char :=
  match line.getLast? with
  | some '\r' => line.dropLast
  | _ => line

/-- The lines of pieces that were separated by line feeds: the last piece had no terminator, so it is a
line only if it is not empty and keeps a carriage return at its end. -/
def linesOfPieces : List (List Char) → List (List Char)
  | [] => []
  | [piece] => if piece.isEmpty then [] else [piece]
  | piece :: pieces => dropReturn piece :: linesOfPieces pieces

/-- The lines of a text, each ended by a line feed or by a carriage return and a line feed. -/
def lines (cs : List Char) : List (List Char) := linesOfPieces (split '\n' cs)

end KeywordIndex.Text
