import KeywordIndex.Proofs.Text.Lowercase
import KeywordIndex.Proofs.Text.Separator
import KeywordIndex.Text.Blank
import Mathlib.Data.List.TakeWhile

namespace KeywordIndex.Text

/-! # Words

Words that are joined by spaces are found again (`words_join`), and their lowercase form is taken word by
word (`lower_join_words`). A blank stays as it is in lowercase, so none is in a word whose lowercase form is
of letters alone (`notMem_of_isLetters`).
-/

variable {c : Char} {cs word : List Char} {ws : List (List Char)} {p : Char → Bool}

/-! ## Finding words -/

theorem wordsFrom_append (h : ∀ c ∈ word, isBlank c = false) (before rest : List Char) :
    wordsFrom before (word ++ rest) = wordsFrom (word.reverse ++ before) rest := by
  induction word generalizing before with
  | nil => rfl
  | cons c word ih =>
    have hc : isBlank c = false := h c List.mem_cons_self
    rw [List.cons_append, wordsFrom, if_neg (by simp [hc]), ih fun d hd => h d (List.mem_cons_of_mem c hd)]
    simp

/-- Words that are joined by spaces are found again. -/
theorem words_join (h : ∀ word ∈ ws, word ≠ [] ∧ ∀ c ∈ word, isBlank c = false) :
    words (join [' '] ws) = ws := by
  unfold words
  induction ws with
  | nil => rfl
  | cons word rest ih =>
    obtain ⟨hne, hword⟩ := h word List.mem_cons_self
    have hrest := ih fun other hother => h other (List.mem_cons_of_mem word hother)
    cases rest with
    | nil =>
      have hlast := wordsFrom_append hword [] []
      rw [List.append_nil, List.append_nil] at hlast
      simp [join, hlast, wordsFrom, hne]
    | cons next rest =>
      have hspace : isBlank ' ' = true := rfl
      rw [join_cons_cons, List.append_assoc, wordsFrom_append hword, List.singleton_append, wordsFrom, hrest]
      simp [hspace, hne]

theorem getLast?_join {c : Char} (h : ∀ piece ∈ ws, piece ≠ []) :
    (join [c] ws).getLast? = ws.getLast?.bind List.getLast? := by
  induction ws with
  | nil => rfl
  | cons piece rest ih =>
    have hrest := ih fun other hother => h other (List.mem_cons_of_mem piece hother)
    cases rest with
    | nil => rfl
    | cons next rest =>
      have hne : join [c] (next :: rest) ≠ [] := by
        rw [Ne, join_eq_nil_iff fun other hother => h other (List.mem_cons_of_mem piece hother)]
        exact List.cons_ne_nil next rest
      rw [join_cons_cons, List.getLast?_append_of_ne_nil _ hne, hrest, List.getLast?_cons_cons]

/-! ## Cutting off at the ends -/

theorem dropEndWhile_append {tail : List Char} (h : ∀ c ∈ tail, p c = true) (cs : List Char) :
    dropEndWhile p (cs ++ tail) = dropEndWhile p cs := by
  rw [dropEndWhile_eq, dropEndWhile_eq, List.reverse_append,
    List.dropWhile_append_of_pos fun c hc => h c (List.mem_reverse.mp hc)]

theorem dropEndWhile_eq_self (h : ∀ c ∈ cs.getLast?, p c = false) : dropEndWhile p cs = cs := by
  rw [dropEndWhile_eq, List.reverse_eq_iff]
  cases hcs : cs.reverse with
  | nil => rfl
  | cons c rest =>
    have hc : p c = false := h c (by rw [List.getLast?_eq_head?_reverse, hcs]; rfl)
    simp [hc]

/-- What is framed is found again if neither end of it is of the frame. -/
theorem dropEndWhile_dropWhile_framed {front back : List Char} (hfront : ∀ c ∈ front, p c = true)
    (hback : ∀ c ∈ back, p c = true) (hhead : ∀ c ∈ cs.head?, p c = false)
    (hlast : ∀ c ∈ cs.getLast?, p c = false) :
    dropEndWhile p ((front ++ (cs ++ back)).dropWhile p) = cs := by
  rw [List.dropWhile_append_of_pos hfront]
  cases cs with
  | nil =>
    rw [List.nil_append, List.dropWhile_eq_nil_iff.mpr hback]
    rfl
  | cons c rest =>
    have hc : p c = false := hhead c rfl
    rw [List.cons_append, List.dropWhile_cons_of_neg (by simp [hc]), ← List.cons_append,
      dropEndWhile_append hback, dropEndWhile_eq_self hlast]

/-! ## Lowercase -/

/-- The code points of blanks. -/
def blankCodes : List Nat :=
  [9, 10, 11, 12, 13, 0x20, 0x85, 0xA0, 0x1680, 0x2000, 0x2001, 0x2002, 0x2003, 0x2004, 0x2005, 0x2006, 0x2007,
   0x2008, 0x2009, 0x200A, 0x2028, 0x2029, 0x202F, 0x205F, 0x3000]

theorem toNat_mem_blankCodes (h : isBlank c = true) : c.toNat ∈ blankCodes := by
  simp only [isBlank, Bool.or_eq_true, Bool.and_eq_true, decide_eq_true_eq, beq_iff_eq] at h
  simp only [blankCodes, List.mem_cons, List.not_mem_nil, or_false]
  omega

/-- A blank is its own lowercase form. -/
theorem isSettled_of_isBlank (h : isBlank c = true) : isSettled c.toNat = true := by
  have hcodes : ∀ n ∈ blankCodes, isSettled n = true := by decide +kernel
  exact hcodes _ (toNat_mem_blankCodes h)

theorem not_letter_of_isBlank (h : isBlank c = true) : ¬ ('a' ≤ c ∧ c ≤ 'z') := by
  simp only [isBlank, Bool.or_eq_true, Bool.and_eq_true, decide_eq_true_eq, beq_iff_eq] at h
  rintro ⟨ha, hz⟩
  have ha : 97 ≤ c.toNat := ha
  have hz : c.toNat ≤ 122 := hz
  omega

/-- What stays as it is in lowercase is in the lowercase form of its text. -/
theorem mem_lower_of_settled (hc : isSettled c.toNat = true) (h : c ∈ cs) : c ∈ lower cs := by
  obtain ⟨hsigma, hchar⟩ := lowerChar_of_settled hc
  have general : ∀ before, c ∈ lowerFrom before cs := by
    induction cs with
    | nil => cases h
    | cons d cs ih =>
      intro before
      rw [lowerFrom, List.mem_append]
      rcases List.mem_cons.mp h with rfl | h
      · left
        rw [if_neg hsigma, hchar]
        exact List.mem_singleton_self c
      · exact .inr (ih h _)
  exact general []

/-- A sigma is in the lowercase form in one of its two forms. -/
theorem mem_lower_of_sigma (h : 'Σ' ∈ cs) : 'σ' ∈ lower cs ∨ 'ς' ∈ lower cs := by
  have general : ∀ before, 'σ' ∈ lowerFrom before cs ∨ 'ς' ∈ lowerFrom before cs := by
    induction cs with
    | nil => cases h
    | cons d cs ih =>
      intro before
      simp only [lowerFrom, List.mem_append]
      rcases List.mem_cons.mp h with rfl | h
      · rw [if_pos rfl, lowerSigma]
        split <;> simp
      · exact (ih h (d :: before)).imp .inr .inr
  exact general []

/-- Away from sigmas the lowercase form is taken word by word. -/
theorem lower_join_words (h : ∀ word ∈ ws, 'Σ' ∉ word) :
    lower (join [' '] ws) = join [' '] (ws.map lower) := by
  induction ws with
  | nil => rfl
  | cons word rest ih =>
    have hrest := ih fun other hother => h other (List.mem_cons_of_mem word hother)
    cases rest with
    | nil => rfl
    | cons next rest =>
      have hspace : lower [' '] = [' '] := by decide +kernel
      have hjoined : 'Σ' ∉ join [' '] (next :: rest) := by
        intro hmem
        rcases mem_join hmem with heq | ⟨other, hother, hmem⟩
        · cases heq
        · exact h other (List.mem_cons_of_mem word hother) hmem
      have hword : 'Σ' ∉ word := h word List.mem_cons_self
      rw [join_cons_cons, lower_append_of_not_sigma (by simp [hword]) hjoined,
        lower_append_of_not_sigma hword (by decide), hspace, hrest]
      exact (join_cons_cons [' '] (lower word) (lower next) (rest.map lower)).symm

/-- Whether the text is of the letters from a to z alone. -/
def IsLetters (cs : List Char) : Prop := ∀ c ∈ cs, 'a' ≤ c ∧ c ≤ 'z'

instance (cs : List Char) : Decidable (IsLetters cs) := List.decidableBAll _ cs

/-- What is spelled with these letters holds no other character that stays as it is in lowercase. -/
theorem notMem_of_isLetters (h : IsLetters (lower word)) (hc : isSettled c.toNat = true)
    (hletter : ¬ ('a' ≤ c ∧ c ≤ 'z')) : c ∉ word :=
  fun hmem => hletter (h c (mem_lower_of_settled hc hmem))

theorem sigma_notMem_of_isLetters (h : IsLetters (lower word)) : 'Σ' ∉ word := by
  intro hmem
  rcases mem_lower_of_sigma hmem with hsigma | hsigma
  · exact absurd (h _ hsigma) (by decide)
  · exact absurd (h _ hsigma) (by decide)

end KeywordIndex.Text
