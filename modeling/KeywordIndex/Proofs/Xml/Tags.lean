import KeywordIndex.Proofs.Xml.Document
import Mathlib.Data.List.TakeWhile

namespace KeywordIndex.Xml

open Text

/-! # Texts and tags as they are read

The references of a written text are replaced by what they stand for (`unescape_writtenText`), a tag is cut
where it ends, whatever its attribute values hold (`cutTag?_of_passed`), and gives the values of its attributes
(`StartTag.value?_tag`).
-/

/-! ## References -/

theorem Digit.digit?_char : ∀ d : Digit, digit? 16 d.char = some d.value.val ∧
    (d.value.val < 10 → digit? 10 d.char = some d.value.val) := by
  have hall : ∀ (value : Fin 16) (capital : Bool),
      digit? 16 (Digit.mk value capital).char = some value.val ∧
        (value.val < 10 → digit? 10 (Digit.mk value capital).char = some value.val) := by decide
  exact fun ⟨value, capital⟩ => hall value capital

/-- Digits are neither signs nor the mark of hexadecimal ones, and no markup. -/
theorem Digit.char_ne (d : Digit) : d.char ≠ '+' ∧ d.char ≠ '-' ∧ d.char ≠ 'x' ∧ d.char ≠ '<' ∧
    endsReference d.char = false := by
  have hall : ∀ (value : Fin 16) (capital : Bool), (Digit.mk value capital).char ≠ '+' ∧
      (Digit.mk value capital).char ≠ '-' ∧ (Digit.mk value capital).char ≠ 'x' ∧
      (Digit.mk value capital).char ≠ '<' ∧ endsReference (Digit.mk value capital).char = false := by
    decide
  obtain ⟨value, capital⟩ := d
  exact hall value capital

namespace Numeral

theorem digit?_char (n : Numeral) {d : Digit} (hd : d ∈ n.digits) :
    digit? n.base d.char = some d.value.val := by
  have hbounded := n.bounded d hd
  unfold base
  split
  · exact d.digit?_char.1
  · next hbase => exact d.digit?_char.2 (by simpa [hbase] using hbounded)

/-- A number grows with its digits, so it fits where the whole fits. -/
theorem le_foldl {base : Nat} (hbase : 0 < base) (digits : List Digit) (value : Nat) :
    value ≤ digits.foldl (fun value d => value * base + d.value) value := by
  induction digits generalizing value with
  | nil => exact Nat.le_refl value
  | cons d digits ih =>
    have hstep : value ≤ value * base + d.value :=
      Nat.le_trans (Nat.le_mul_of_pos_right value hbase) (Nat.le_add_right _ _)
    exact Nat.le_trans hstep (ih _)

theorem numberFrom_digits {base : Nat} (hbase : 0 < base) (digits : List Digit)
    (hdigits : ∀ d ∈ digits, digit? base d.char = some d.value.val) (value : Nat)
    (h : digits.foldl (fun value d => value * base + d.value) value < 0x100000000) :
    numberFrom base value (digits.map Digit.char) =
      .ok (digits.foldl (fun value d => value * base + d.value) value) := by
  induction digits generalizing value with
  | nil => rfl
  | cons d digits ih =>
    rw [List.foldl_cons] at h ⊢
    have hfits := Nat.lt_of_le_of_lt (le_foldl hbase digits _) h
    rw [List.map_cons, numberFrom, hdigits d List.mem_cons_self]
    simp only
    rw [if_pos hfits, ih (fun e he => hdigits e (List.mem_cons_of_mem d he)) _ h]

theorem number_digits (n : Numeral) (h : n.value < 0x100000000) :
    number n.base (n.digits.map Digit.char) = .ok n.value := by
  have hbase : 0 < n.base := by
    unfold base
    split <;> decide
  have hfrom := numberFrom_digits hbase n.digits (fun d hd => n.digit?_char hd) 0 h
  cases hdigits : n.digits with
  | nil => exact absurd hdigits n.nonempty
  | cons d digits =>
    obtain ⟨hplus, hminus, -⟩ := d.char_ne
    rw [← hdigits, ← show _ = Except.ok n.value from hfrom, hdigits, List.map_cons]
    unfold number
    split
    · next heq => cases heq
    · next heq => exact absurd (List.cons.inj heq).1 hplus
    · next heq => exact absurd (List.cons.inj heq).1 hminus
    · rfl

theorem numbered_written (n : Numeral) (hvalid : n.value.isValidChar) (hnonzero : n.value ≠ 0) :
    numbered n.written = .ok (Char.ofNat n.value) := by
  have hsmall : n.value < 0x100000000 := by
    rcases hvalid with h | ⟨-, h⟩ <;> omega
  have hnumber := n.number_digits hsmall
  cases hbase : n.isHexadecimal with
  | true =>
    have hwritten : n.written = 'x' :: n.digits.map Digit.char := by simp [written, hbase]
    have hcode : number 16 (n.digits.map Digit.char) = .ok n.value := by
      simpa [base, hbase] using hnumber
    rw [hwritten, numbered]
    simp [hcode, hvalid]
  | false =>
    have hwritten : n.written = n.digits.map Digit.char := by simp [written, hbase]
    have hcode : number 10 n.written = .ok n.value := by
      simpa [base, hbase, hwritten] using hnumber
    -- a decimal digit is not taken for the mark of hexadecimal ones
    have hx : ∀ hex, n.written ≠ 'x' :: hex := by
      intro hex heq
      obtain ⟨d, -, hd⟩ := List.mem_map.mp
        (hwritten ▸ heq ▸ List.mem_cons_self : 'x' ∈ n.digits.map Digit.char)
      exact d.char_ne.2.2.1 hd
    rw [numbered]
    · simp [hcode, hvalid]
    · exact hx

end Numeral

namespace Reference

theorem plain_name (r : Reference) : ∀ c ∈ r.name, c ≠ '<' ∧ endsReference c = false := by
  cases r with
  | numbered n =>
    intro c hc
    simp only [name, Numeral.written, List.mem_cons, List.mem_append, List.mem_map] at hc
    rcases hc with rfl | hc | ⟨d, -, rfl⟩
    · decide
    · split at hc
      · obtain rfl := List.mem_singleton.mp hc
        decide
      · cases hc
    · exact d.char_ne.2.2.2
  | _ => decide

theorem referenced_name (r : Reference) (offset : Nat) : referenced offset r.name = .ok r.char := by
  cases r with
  | numbered n hvalid hnonzero => exact n.numbered_written hvalid hnonzero
  | _ => rfl

end Reference

theorem unescapeFrom_writtenText (symbols : List Symbol) (total offset : Nat) :
    unescapeFrom total offset (writtenText symbols) = .ok (textOf symbols) := by
  induction symbols generalizing offset with
  | nil => simp [writtenText, textOf, unescapeFrom]
  | cons s symbols ih =>
    have hwritten : writtenText (s :: symbols) = s.written ++ writtenText symbols := List.flatMap_cons
    rw [hwritten]
    cases s with
    | literal c hplain =>
      rw [Symbol.written, List.singleton_append, unescapeFrom, if_neg hplain.2, ih]
      rfl
    | reference r =>
      have htext : Symbol.written (.reference r) ++ writtenText symbols =
          '&' :: (r.name ++ ';' :: writtenText symbols) := by
        simp [Symbol.written]
      -- the name ends at the semicolon
      have hname : (r.name ++ ';' :: writtenText symbols).takeWhile (!endsReference ·) = r.name := by
        rw [List.takeWhile_append_of_pos fun c hc => by simp [(r.plain_name c hc).2]]
        simp [endsReference]
      rw [htext, unescapeFrom, if_pos rfl]
      simp only [hname, List.drop_left, r.referenced_name]
      rw [List.drop_append, List.drop_of_length_le (Nat.le_succ _), Nat.add_sub_cancel_left,
        List.nil_append, List.drop_succ_cons, List.drop_zero, ih]
      rfl

/-- The references of a written text are replaced by what they stand for. -/
theorem unescape_writtenText (symbols : List Symbol) :
    unescape (writtenText symbols) = .ok (textOf symbols) :=
  unescapeFrom_writtenText symbols _ _

/-! ## Where a tag ends -/

/-- The text is passed over in the search for the end of a tag. -/
def PassedInTag (cs : List Char) : Prop := ∀ rest,
  cutTag? none (cs ++ rest) = (cutTag? none rest).map fun (inside, rest) => (cs ++ inside, rest)

theorem PassedInTag.nil : PassedInTag [] := by
  intro rest
  simp

theorem PassedInTag.append {a b : List Char} (ha : PassedInTag a) (hb : PassedInTag b) :
    PassedInTag (a ++ b) := by
  intro rest
  rw [List.append_assoc, ha, hb, Option.map_map]
  congr 1
  funext p
  cases p with
  | mk inside rest => simp

theorem passedInTag_of_plain {cs : List Char} (h : ∀ c ∈ cs, c ≠ '>' ∧ c ≠ '"' ∧ c ≠ '\x27') :
    PassedInTag cs := by
  intro rest
  induction cs with
  | nil => simp
  | cons c cs ih =>
    obtain ⟨hend, hdouble, hsingle⟩ := h c List.mem_cons_self
    rw [List.cons_append, cutTag?, if_neg (fun h => hend h.2), openAfter,
      if_neg (not_or.mpr ⟨hdouble, hsingle⟩), ih fun d hd => h d (List.mem_cons_of_mem c hd),
      Option.map_map]
    rfl

theorem cutTag?_quoted {mark : Char} {value : List Char} (h : mark ∉ value) (rest : List Char) :
    cutTag? (some mark) (value ++ mark :: rest) =
      (cutTag? none rest).map fun (inside, rest) => (value ++ mark :: inside, rest) := by
  induction value with
  | nil => simp [cutTag?, openAfter]
  | cons c value ih =>
    rw [List.mem_cons, not_or] at h
    rw [List.cons_append, cutTag?, if_neg (by simp), openAfter, if_neg (Ne.symm h.1), ih h.2,
      Option.map_map]
    rfl

/-- A quoted value may hold anything but its quotation mark. -/
theorem passedInTag_quoted (mark : QuoteMark) {value : List Char} (h : mark.char ∉ value) :
    PassedInTag (mark.char :: (value ++ [mark.char])) := by
  intro rest
  have hne : mark.char ≠ '>' := by cases mark <;> decide
  have hopen : openAfter none mark.char = some mark.char := by cases mark <;> rfl
  rw [List.cons_append, cutTag?, if_neg (fun h => hne h.2), hopen, List.append_assoc,
    List.singleton_append, cutTag?_quoted h, Option.map_map]
  congr 1
  funext p
  cases p with
  | mk inside rest => simp

theorem isSpace_iff {c : Char} :
    isSpace c = true ↔ c = ' ' ∨ c = '\t' ∨ c = '\r' ∨ c = '\n' := by
  simp [isSpace, or_assoc]

theorem Spacing.passedInTag (s : Spacing) : PassedInTag s.text := by
  refine passedInTag_of_plain fun c hc => ?_
  rcases isSpace_iff.mp (s.blank c hc) with rfl | rfl | rfl | rfl <;> decide

theorem isMark_eq_false_iff {c : Char} : isMark c = false ↔
    isSpace c = false ∧ c ∉ ['<', '>', '/', '=', '"', '\x27', '!', '?', '&'] := by
  rw [isMark, Bool.or_eq_false_iff, ← Bool.not_eq_true (List.contains _ _), List.contains_iff_mem]

namespace Name

theorem not_isSpace (n : Name) {c : Char} (hc : c ∈ n.text) : isSpace c = false :=
  (isMark_eq_false_iff.mp (n.plain c hc)).1

theorem ne_of_mem (n : Name) {c : Char} (hc : c ∈ n.text) {d : Char}
    (hd : d ∈ ['<', '>', '/', '=', '"', '\x27', '!', '?', '&']) : c ≠ d := by
  rintro rfl
  exact (isMark_eq_false_iff.mp (n.plain c hc)).2 hd

theorem passedInTag (n : Name) : PassedInTag n.text := by
  refine passedInTag_of_plain fun c hc => ⟨?_, ?_, ?_⟩ <;>
  · exact n.ne_of_mem hc (by decide)

end Name

theorem Attribute.passedInTag (a : Attribute) : PassedInTag a.written := by
  have hequals : PassedInTag ['='] := passedInTag_of_plain (by decide)
  have hquoted := passedInTag_quoted a.mark a.closed
  have hparts := ((a.lead.passedInTag.append a.key.passedInTag).append a.beforeEquals.passedInTag).append
    (hequals.append (a.afterEquals.passedInTag.append hquoted))
  simpa [Attribute.written] using hparts

theorem passedInTag_attributes (attributes : List Attribute) :
    PassedInTag (attributes.flatMap Attribute.written) := by
  induction attributes with
  | nil => exact .nil
  | cons a attributes ih =>
    rw [List.flatMap_cons]
    exact a.passedInTag.append ih

theorem StartTag.passedInTag (t : StartTag) : PassedInTag t.written :=
  (t.name.passedInTag.append (passedInTag_attributes t.attributes)).append t.trail.passedInTag

theorem cutTag?_of_passed {cs : List Char} (h : PassedInTag cs) (rest : List Char) :
    cutTag? none (cs ++ '>' :: rest) = some (cs, rest) := by
  simp [h ('>' :: rest), cutTag?]

/-! ## Attributes -/

theorem dropWhile_isSpace (s : Spacing) {c : Char} (hc : isSpace c = false) (rest : List Char) :
    (s.text ++ c :: rest).dropWhile isSpace = c :: rest := by
  rw [List.dropWhile_append_of_pos s.blank, List.dropWhile_cons, hc]
  rfl

theorem quotedValue_written (a : Attribute) (total : Nat) (key rest : List Char) :
    Tag.quotedValue total key
      (a.afterEquals.text ++ a.mark.char :: (writtenText a.value ++ a.mark.char :: rest)) =
    .ok ⟨key, writtenText a.value, rest⟩ := by
  have hspace : isSpace a.mark.char = false := by cases a.mark <;> decide
  have hmark : a.mark.char = '"' ∨ a.mark.char = '\x27' := by cases a.mark <;> decide
  have hinside : ∀ c ∈ writtenText a.value, (c ≠ a.mark.char : Bool) = true := by
    intro c hc
    simpa using fun heq : c = a.mark.char => a.closed (heq ▸ hc)
  unfold Tag.quotedValue
  rw [dropWhile_isSpace _ hspace]
  simp only
  rw [if_pos hmark, List.dropWhile_append_of_pos hinside, List.takeWhile_append_of_pos hinside]
  simp

/-- An attribute is read with its key and its value as written. -/
theorem attributeAfter_written (a : Attribute) (total : Nat) {first : Char} {more : List Char}
    (hkey : a.key.text = first :: more) (rest : List Char) :
    Tag.attributeAfter total first (more ++ (a.beforeEquals.text ++
      '=' :: (a.afterEquals.text ++ a.mark.char :: (writtenText a.value ++ a.mark.char :: rest)))) =
    .ok ⟨a.key.text, writtenText a.value, rest⟩ := by
  have hmore : ∀ c ∈ more, Tag.isKeyChar c = true := by
    intro c hc
    have hmem : c ∈ a.key.text := hkey ▸ List.mem_cons_of_mem first hc
    simp [Tag.isKeyChar, a.key.not_isSpace hmem, a.key.ne_of_mem hmem (d := '=') (by decide)]
  -- the key ends at the white space before the equals sign, or at the sign itself
  have hend : ∀ value : List Char, (a.beforeEquals.text ++ '=' :: value).takeWhile Tag.isKeyChar = [] ∧
      (a.beforeEquals.text ++ '=' :: value).dropWhile Tag.isKeyChar =
        a.beforeEquals.text ++ '=' :: value := by
    intro value
    cases hspaces : a.beforeEquals.text with
    | nil => simp [Tag.isKeyChar]
    | cons c spaces =>
      have hc := a.beforeEquals.blank c (hspaces ▸ List.mem_cons_self)
      simp [Tag.isKeyChar, hc]
  unfold Tag.attributeAfter
  rw [List.dropWhile_append_of_pos hmore, List.takeWhile_append_of_pos hmore, (hend _).1, (hend _).2,
    dropWhile_isSpace _ (by decide), List.append_nil, ← hkey]
  simp only
  rw [if_pos trivial, quotedValue_written]

theorem valueFrom_written (key : List Char) (total : Nat) (attributes : List Attribute) (trail : Spacing) :
    Tag.valueFrom key total (attributes.flatMap Attribute.written ++ trail.text) =
      .ok ((attributes.find? (·.key.text = key)).map fun a => writtenText a.value) := by
  induction attributes with
  | nil =>
    have hnone : trail.text.dropWhile isSpace = [] := List.dropWhile_eq_nil_iff.mpr trail.blank
    rw [List.flatMap_nil, List.nil_append, Tag.valueFrom]
    split
    · rfl
    · next heq => simp [hnone] at heq
  | cons a attributes ih =>
    obtain ⟨first, more, hkey⟩ := List.exists_cons_of_ne_nil a.key.nonempty
    have hfirst : isSpace first = false := a.key.not_isSpace (hkey ▸ List.mem_cons_self)
    have hwritten : (a :: attributes).flatMap Attribute.written ++ trail.text =
        a.lead.text ++ first :: (more ++ (a.beforeEquals.text ++
          '=' :: (a.afterEquals.text ++ a.mark.char :: (writtenText a.value ++
            a.mark.char :: (attributes.flatMap Attribute.written ++ trail.text))))) := by
      simp [Attribute.written, hkey]
    rw [Tag.valueFrom, hwritten]
    split
    · next heq => simp [dropWhile_isSpace a.lead hfirst] at heq
    · next heq =>
      rw [dropWhile_isSpace a.lead hfirst] at heq
      obtain ⟨rfl, rfl⟩ := List.cons.inj heq
      split
      · next hfault => simp [attributeAfter_written a total hkey] at hfault
      · next hfound =>
        rw [attributeAfter_written a total hkey] at hfound
        obtain rfl := Except.ok.inj hfound
        rw [List.find?_cons]
        by_cases hsame : a.key.text = key
        · simp [hsame]
        · simp [hsame, ih]

namespace StartTag

/-- The name ends where the attributes or the white space begin. -/
theorem name_tag (t : StartTag) : t.tag.name = t.name.text := by
  have hname : ∀ c ∈ t.name.text, (!isSpace c) = true := by
    intro c hc
    simp [t.name.not_isSpace hc]
  have hrest : (t.attributes.flatMap Attribute.written ++ t.trail.text).takeWhile (!isSpace ·) = [] := by
    cases t.attributes with
    | nil =>
      rw [List.flatMap_nil, List.nil_append]
      cases htrail : t.trail.text with
      | nil => rfl
      | cons c spaces => simp [t.trail.blank c (htrail ▸ List.mem_cons_self)]
    | cons a attributes =>
      obtain ⟨c, spaces, hlead⟩ := List.exists_cons_of_ne_nil a.apart
      simp [Attribute.written, hlead, a.lead.blank c (hlead ▸ List.mem_cons_self)]
  rw [Tag.name, tag, written, List.append_assoc, List.takeWhile_append_of_pos hname, hrest,
    List.append_nil]

theorem localName_tag (t : StartTag) : t.tag.localName = t.localName := by
  rw [Tag.localName, name_tag, localName]

/-- A tag gives the values of its attributes. -/
theorem value?_tag (t : StartTag) (key : List Char) : t.tag.value? key = .ok (t.attribute? key) := by
  have hrest : t.tag.content.drop t.tag.name.length =
      t.attributes.flatMap Attribute.written ++ t.trail.text := by
    rw [name_tag, tag, written, List.append_assoc, List.drop_left]
  unfold Tag.value? attribute?
  rw [hrest, valueFrom_written]
  cases t.attributes.find? (·.key.text = key) with
  | none => rfl
  | some a => simp [unescape_writtenText]

end StartTag

end KeywordIndex.Xml
