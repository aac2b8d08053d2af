namespace KeywordIndex.Text

/-!
# Blank characters

Blank is the White_Space property of the Unicode standard. Trimming removes blanks at the ends of a
text, and the words of a text are its maximal runs of other characters.
-/

/-- The White_Space property. -/
def isBlank (c : Char) : Bool :=
  let n := c.toNat
  (9 ≤ n && n ≤ 13) || n == 0x20 || n == 0x85 || n == 0xA0 || n == 0x1680 ||
    (0x2000 ≤ n && n ≤ 0x200A) || n == 0x2028 || n == 0x2029 || n == 0x202F || n == 0x205F ||
    n == 0x3000

/-- Removes the longest tail whose elements all satisfy `p`. -/
def dropEndWhile {α : Type} (p : α → Bool) : List α → List α
  | [] => []
  | a :: as =>
    match dropEndWhile p as with
    | [] => if p a then [] else [a]
    | kept => a :: kept

theorem dropEndWhile_eq {α : Type} (p : α → Bool) (as : List α) :
    dropEndWhile p as = (as.reverse.dropWhile p).reverse := by
  induction as with
  | nil => rfl
  | cons a as ih =>
    rw [dropEndWhile, ih, List.reverse_cons, List.dropWhile_append]
    cases h : as.reverse.dropWhile p with
    | nil => by_cases ha : p a <;> simp [ha]
    | cons b bs =>
      cases hr : (b :: bs).reverse with
      | nil => simp at hr
      | cons => simp [← hr]

/-- Removes leading blanks. -/
def trimStart (cs : List Char) : List Char := cs.dropWhile isBlank

/-- Removes trailing blanks. -/
def trimEnd (cs : List Char) : List Char := dropEndWhile isBlank cs

/-- Removes blanks at both ends. -/
def trim (cs : List Char) : List Char := trimEnd (trimStart cs)

/-- The words of `cs` when the word under way is `word`, reversed. -/
def wordsFrom (word : List Char) : List Char → List (List Char)
  | [] => if word.isEmpty then [] else [word.reverse]
  | c :: cs =>
    if isBlank c then
      if word.isEmpty then wordsFrom [] cs else word.reverse :: wordsFrom [] cs
    else wordsFrom (c :: word) cs

/-- The maximal runs of characters that are not blank. -/
def words (cs : List Char) : List (List Char) := wordsFrom [] cs

/-- A text without the blanks at its ends. -/
def trimmed (s : String) : String := String.ofList (trim s.toList)

end KeywordIndex.Text
