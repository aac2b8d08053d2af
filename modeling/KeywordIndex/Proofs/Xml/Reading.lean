import KeywordIndex.Proofs.Text.Cutting
import KeywordIndex.Proofs.Xml.Tags

namespace KeywordIndex.Xml

open Text

/-! # Documents as they are read

Each kind of markup is read as one event, whatever follows it. A content is read as its events up to the tag
that ends it (`readFrom_content`), so a whole document is read as the events of its content, without a fault
(`read_written`).
-/

/-! ## Markup -/

theorem cutBalanced?_append {cs : List Char} {depth : Nat}
    (hopened : ∀ before, before <+: cs → before.count '>' ≤ depth + before.count '<')
    (hclosed : depth + cs.count '<' = cs.count '>') (rest : List Char) :
    cutBalanced? depth (cs ++ '>' :: rest) = some (cs, rest) := by
  induction cs generalizing depth with
  | nil =>
    have hdepth : depth = 0 := by simpa using hclosed
    simp [cutBalanced?, hdepth]
  | cons c cs ih =>
    have hmore : ∀ before, before <+: cs →
        (c :: before).count '>' ≤ depth + (c :: before).count '<' := fun before hbefore =>
      hopened (c :: before) ((List.prefix_cons_inj c).mpr hbefore)
    have hfirst := hmore [] List.nil_prefix
    -- the depth behind a bracket is what is open there, so both conditions go on from it
    by_cases hopen : c = '<'
    · subst hopen
      simp only [List.count_cons_self, List.count_cons_of_ne (by decide : '<' ≠ '>')] at hmore hclosed
      have hcut : cutBalanced? (depth + 1) (cs ++ '>' :: rest) = some (cs, rest) :=
        ih (fun before h => by have := hmore before h; omega) (by omega)
      simp [cutBalanced?, hcut]
    · by_cases hclose : c = '>'
      · subst hclose
        simp only [List.count_cons_self, List.count_cons_of_ne (by decide : '>' ≠ '<')] at hmore hclosed
        simp only [List.count_cons_self, List.count_cons_of_ne (by decide : '>' ≠ '<'),
          List.count_nil] at hfirst
        have hcut : cutBalanced? (depth - 1) (cs ++ '>' :: rest) = some (cs, rest) :=
          ih (fun before h => by have := hmore before h; omega) (by omega)
        have hdepth : depth ≠ 0 := by omega
        simp [cutBalanced?, hcut, hdepth]
      · simp only [List.count_cons_of_ne hopen, List.count_cons_of_ne hclose] at hmore hclosed
        simp [cutBalanced?, hopen, hclose, ih hmore hclosed]

theorem readDoctype_written (names : List (List Char)) {content : List Char}
    (hnamed : ∃ c ∈ content, isSpace c = false) (hbalanced : Balanced content) (rest : List Char) :
    readDoctype names (['D', 'O', 'C', 'T', 'Y', 'P', 'E'] ++ content ++ '>' :: rest) =
      .ok ⟨.skipped, names, rest⟩ := by
  have hcut : cutBalanced? 0 (content ++ '>' :: rest) = some (content, rest) :=
    cutBalanced?_append (fun before h => by simpa using hbalanced.opened before h)
      (by simpa using hbalanced.closed) rest
  have hword : cutBalanced? 0 (['D', 'O', 'C', 'T', 'Y', 'P', 'E'] ++ content ++ '>' :: rest) =
      some (['D', 'O', 'C', 'T', 'Y', 'P', 'E'] ++ content, rest) := by
    simp [cutBalanced?, hcut]
  have hname : content.all isSpace = false := by
    obtain ⟨c, hc, hspace⟩ := hnamed
    exact List.all_eq_false.mpr ⟨c, hc, by simp [hspace]⟩
  unfold readDoctype
  rw [hword]
  simp [doctypeWord, hname]

theorem readMarkup_aside (names : List (List Char)) (a : Aside) (rest : List Char) :
    readMarkup names (a.written ++ rest) = .ok ⟨.skipped, names, rest⟩ := by
  cases a with
  | comment content hclosed =>
    have hcut : cutAt? ['-', '-', '>'] (content ++ ['-', '-', '>'] ++ rest) = some (content, rest) :=
      cutAt?_append_last ['-', '-'] (by decide) hclosed rest
    change readComment names (content ++ ['-', '-', '>'] ++ rest) = _
    rw [readComment, hcut]
  | instruction content hclosed =>
    have hcut : cutAt? ['?', '>'] ('?' :: content ++ ['?', '>'] ++ rest) = some ('?' :: content, rest) :=
      cutAt?_append_last ['?'] (by decide) hclosed rest
    change readInstruction names ('?' :: content ++ ['?', '>'] ++ rest) = _
    rw [readInstruction, hcut]
  | doctype content hnamed hbalanced =>
    have hread := readDoctype_written names hnamed hbalanced rest
    simpa [Aside.written, readMarkup, readDeclaration] using hread

theorem readMarkup_characterData (names : List (List Char)) (data : CharacterData) (rest : List Char) :
    readMarkup names (['!', '[', 'C', 'D', 'A', 'T', 'A', '['] ++
      (data.content ++ [']', ']', '>'] ++ rest)) = .ok ⟨.characterData data.content, names, rest⟩ := by
  have hcut : cutAt? [']', ']', '>'] (data.content ++ [']', ']', '>'] ++ rest) =
      some (data.content, rest) :=
    cutAt?_append_last [']', ']'] (by decide) data.closed rest
  change readCharacterData names (data.content ++ [']', ']', '>'] ++ rest) = _
  rw [readCharacterData, hcut]

namespace StartTag

/-- A tag that does not close itself does not end in a slash. -/
theorem getLast?_written (t : StartTag) : t.written.getLast? ≠ some '/' := by
  have hname : t.name.text.getLast? ≠ some '/' := fun h =>
    t.name.ne_of_mem (List.mem_of_getLast? h) (d := '/') (by decide) rfl
  have hattributes : (t.attributes.flatMap Attribute.written).getLast? ≠ some '/' := by
    intro h
    rcases List.eq_nil_or_concat t.attributes with hnil | ⟨attributes, a, heq⟩
    · simp [hnil] at h
    · have hmark : a.mark.char = '/' := by
        simpa [heq, Attribute.written, List.getLast?_append, List.getLast?_cons] using h
      cases hquote : a.mark <;> simp [hquote, QuoteMark.char] at hmark
  have htrail : t.trail.text.getLast? ≠ some '/' := fun h =>
    absurd (t.trail.blank '/' (List.mem_of_getLast? h)) (by decide)
  simp only [written, List.getLast?_append, ne_eq, Option.or_eq_some_iff, not_or, not_and]
  exact ⟨htrail, fun _ => ⟨hattributes, fun _ => hname⟩⟩

theorem readMarkup_eq_readStart (t : StartTag) (names : List (List Char)) (rest : List Char) :
    readMarkup names (t.written ++ rest) = readStart names (t.written ++ rest) := by
  obtain ⟨c, more, hname⟩ := List.exists_cons_of_ne_nil t.name.nonempty
  have hc : c ∈ t.name.text := hname ▸ List.mem_cons_self
  have hbang := t.name.ne_of_mem hc (d := '!') (by decide)
  have hslash := t.name.ne_of_mem hc (d := '/') (by decide)
  have hquestion := t.name.ne_of_mem hc (d := '?') (by decide)
  simp only [written, hname, List.cons_append]
  rw [readMarkup.eq_def]
  split
  · next heq => cases heq
  · next heq => exact absurd (List.cons.inj heq).1 hbang
  · next heq => exact absurd (List.cons.inj heq).1 hslash
  · next heq => exact absurd (List.cons.inj heq).1 hquestion
  · rfl

theorem readMarkup_opened (t : StartTag) (names : List (List Char)) (rest : List Char) :
    readMarkup names (t.written ++ '>' :: rest) = .ok ⟨.opened t.tag, t.name.text :: names, rest⟩ := by
  rw [readMarkup_eq_readStart, readStart, cutTag?_of_passed t.passedInTag]
  simp only
  rw [if_neg t.getLast?_written, ← t.name_tag]
  rfl

theorem readMarkup_selfClosed (t : StartTag) (names : List (List Char)) (rest : List Char) :
    readMarkup names (t.written ++ '/' :: '>' :: rest) = .ok ⟨.selfClosed t.tag, names, rest⟩ := by
  have hpassed : PassedInTag (t.written ++ ['/']) :=
    t.passedInTag.append (passedInTag_of_plain (by decide))
  have hcut := cutTag?_of_passed hpassed rest
  rw [List.append_assoc, List.singleton_append] at hcut
  rw [readMarkup_eq_readStart, readStart, hcut]
  simp only
  rw [if_pos (by simp), List.dropLast_concat]
  rfl

end StartTag

theorem readMarkup_closed (names : List (List Char)) (n : Name) (trail : Spacing) (rest : List Char) :
    readMarkup (n.text :: names) ('/' :: (n.text ++ trail.text ++ '>' :: rest)) =
      .ok ⟨.closed, names, rest⟩ := by
  have hend : endName (n.text ++ trail.text) = n.text := by
    have hdrop : endName.dropEndSpace (n.text ++ trail.text) = n.text := by
      have hspaces : ∀ c ∈ trail.text.reverse, isSpace c = true := fun c hc =>
        trail.blank c (List.mem_reverse.mp hc)
      unfold endName.dropEndSpace
      rw [List.reverse_append, List.dropWhile_append_of_pos hspaces, List.reverse_eq_iff]
      cases hname : n.text.reverse with
      | nil => rfl
      | cons c more =>
        have hc : c ∈ n.text := List.mem_reverse.mp (hname ▸ List.mem_cons_self)
        rw [List.dropWhile_cons, n.not_isSpace hc]
        rfl
    unfold endName
    rw [hdrop]
    split
    · next hnil => exact absurd hnil n.nonempty
    · rfl
  change readEnd (n.text :: names) _ = _
  rw [readEnd, cutTag?_of_passed (n.passedInTag.append trail.passedInTag)]
  simp [hend]

/-! ## Content -/

/-- Puts events before a reading. -/
def Reading.prepend (events : List Event) (r : Reading) : Reading := { r with events := events ++ r.events }

theorem not_mem_writtenText (symbols : List Symbol) : '<' ∉ writtenText symbols := by
  intro h
  obtain ⟨s, -, hs⟩ := List.mem_flatMap.mp h
  cases s with
  | literal c hplain => exact hplain.1 (List.mem_singleton.mp hs).symm
  | reference r =>
    have hname : '<' ∈ r.name := by simpa [Symbol.written] using hs
    exact (r.plain_name '<' hname).1 rfl

theorem Symbol.written_ne_nil (s : Symbol) : s.written ≠ [] := by cases s <;> simp [written]

theorem pushText_writtenText (symbols : List Symbol) (r : Reading) :
    Reading.pushText (writtenText symbols) r = r.prepend (Content.textEvents symbols) := by
  cases symbols with
  | nil => rfl
  | cons s symbols =>
    have hne : writtenText (s :: symbols) ≠ [] := by
      simp [writtenText, s.written_ne_nil]
    rw [Reading.pushText, if_neg (by simpa using hne)]
    rfl

section Reading

variable {names : List (List Char)} {cs : List Char}

theorem readFrom_text (h : '<' ∉ cs) : readFrom names cs = Reading.pushText cs ⟨[], none⟩ := by
  have hcs : ∀ c ∈ cs, (c ≠ '<' : Bool) = true := by
    intro c hc
    simpa using fun heq : c = '<' => h (heq ▸ hc)
  have hdrop : cs.dropWhile (· ≠ '<') = [] := List.dropWhile_eq_nil_iff.mpr hcs
  rw [readFrom, List.takeWhile_eq_self_iff.mpr hcs]
  split
  · rfl
  · next heq => cases hdrop.symm.trans heq

theorem readFrom_markup (names : List (List Char)) {cs : List Char} (h : '<' ∉ cs)
    (markup : List Char) :
    readFrom names (cs ++ '<' :: markup) = Reading.pushText cs
      (match readMarkup names markup with
      | .error fault => ⟨[], some fault⟩
      | .ok step => (readFrom step.names step.rest).push step.event) := by
  have hcs : ∀ c ∈ cs, (c ≠ '<' : Bool) = true := by
    intro c hc
    simpa using fun heq : c = '<' => h (heq ▸ hc)
  have hdrop : (cs ++ '<' :: markup).dropWhile (· ≠ '<') = '<' :: markup := by
    rw [List.dropWhile_append_of_pos hcs]
    simp
  have htake : (cs ++ '<' :: markup).takeWhile (· ≠ '<') = cs := by
    rw [List.takeWhile_append_of_pos hcs]
    simp
  rw [readFrom, htake]
  split
  · next heq => cases hdrop.symm.trans heq
  · next heq =>
    obtain ⟨-, rfl⟩ := List.cons.inj (hdrop.symm.trans heq)
    split
    · next hstep => simp only [hstep]
    · next hstep => simp only [hstep]

/-- A text is read up to the markup after it, which is read on its own. -/
theorem readFrom_append (h : '<' ∉ cs) {rest : List Char} (hrest : ∀ c ∈ rest.head?, c = '<') :
    readFrom names (cs ++ rest) = (readFrom names rest).pushText cs := by
  cases rest with
  | nil => rw [List.append_nil, readFrom_text h, readFrom_text List.not_mem_nil]; rfl
  | cons c markup =>
    obtain rfl := hrest c rfl
    have hmarkup := readFrom_markup names List.not_mem_nil markup
    rw [List.nil_append] at hmarkup
    rw [readFrom_markup names h, hmarkup]
    rfl

end Reading

namespace Content

/-- A content is read as its events up to the end of the document or the tag behind it. -/
theorem readFrom_content (c : Content) (names : List (List Char)) (rest : List Char)
    (hrest : ∀ d ∈ rest.head?, d = '<') :
    readFrom names (c.written ++ rest) = (readFrom names rest).prepend c.events := by
  induction c generalizing names rest with
  | text symbols =>
    rw [written, readFrom_append (not_mem_writtenText symbols) hrest, pushText_writtenText]
    rfl
  | aside before a more ih =>
    have htext : (aside before a more).written ++ rest =
        writtenText before ++ '<' :: (a.written ++ (more.written ++ rest)) := by simp [written]
    rw [htext, readFrom_markup _ (not_mem_writtenText before), readMarkup_aside, pushText_writtenText]
    simp [ih names rest hrest, Reading.push, Reading.prepend, events]
  | characterData before data more ih =>
    have htext : (characterData before data more).written ++ rest = writtenText before ++
        '<' :: (['!', '[', 'C', 'D', 'A', 'T', 'A', '['] ++
          (data.content ++ [']', ']', '>'] ++ (more.written ++ rest))) := by simp [written]
    rw [htext, readFrom_markup _ (not_mem_writtenText before), readMarkup_characterData,
      pushText_writtenText]
    simp [ih names rest hrest, Reading.push, Reading.prepend, events]
  | selfClosed before tag more ih =>
    have htext : (selfClosed before tag more).written ++ rest =
        writtenText before ++ '<' :: (tag.written ++ '/' :: '>' :: (more.written ++ rest)) := by
      simp [written]
    rw [htext, readFrom_markup _ (not_mem_writtenText before), tag.readMarkup_selfClosed,
      pushText_writtenText]
    simp [ih names rest hrest, Reading.push, Reading.prepend, events]
  | element before tag inner trail more ihinner ihmore =>
    have htext : (element before tag inner trail more).written ++ rest = writtenText before ++
        '<' :: (tag.written ++ '>' :: (inner.written ++
          '<' :: '/' :: (tag.name.text ++ trail.text ++ '>' :: (more.written ++ rest)))) := by
      simp [written]
    -- the content of the element ends at its end tag, which its name then matches
    have hend := readFrom_markup (tag.name.text :: names) List.not_mem_nil
      ('/' :: (tag.name.text ++ trail.text ++ '>' :: (more.written ++ rest)))
    rw [List.nil_append, readMarkup_closed] at hend
    rw [htext, readFrom_markup _ (not_mem_writtenText before), tag.readMarkup_opened,
      pushText_writtenText]
    simp only
    rw [ihinner _ _ (by simp), hend]
    simp [ihmore names rest hrest, Reading.push, Reading.prepend, Reading.pushText, events]

end Content

/-! ## Documents -/

/-- The event opens and closes nothing. -/
def IsFlat : Event → Prop
  | .text _ => True
  | .characterData _ => True
  | .skipped => True
  | _ => False

namespace Content

theorem isFlat_textEvents (symbols : List Symbol) : ∀ event ∈ textEvents symbols, IsFlat event := by
  intro event hevent
  unfold textEvents at hevent
  split at hevent
  · cases hevent
  · obtain rfl := List.mem_singleton.mp hevent
    trivial

theorem isFlat_events {c : Content} (h : c.pieces.filterMap Piece.child? = []) :
    ∀ event ∈ c.events, IsFlat event := by
  induction c with
  | text symbols => exact isFlat_textEvents symbols
  | aside before a rest ih =>
    rw [events, List.forall_mem_append, List.forall_mem_cons]
    exact ⟨isFlat_textEvents before, trivial, ih h⟩
  | characterData before data rest ih =>
    rw [events, List.forall_mem_append, List.forall_mem_cons]
    exact ⟨isFlat_textEvents before, trivial, ih h⟩
  | selfClosed => simp [pieces, Piece.child?] at h
  | element => simp [pieces, Piece.child?] at h

/-- The events of a content with a single element are those of the element, and flat ones around. -/
theorem exists_events {c : Content} {e : Element} (h : c.pieces.filterMap Piece.child? = [e]) :
    ∃ before after, c.events = before ++ e.events ++ after ∧
      (∀ event ∈ before, IsFlat event) ∧ ∀ event ∈ after, IsFlat event := by
  -- the element is found behind the text and what else comes first
  have hlater : ∀ (first : List Event) (rest : Content), (∀ event ∈ first, IsFlat event) →
      (∃ before after, rest.events = before ++ e.events ++ after ∧
        (∀ event ∈ before, IsFlat event) ∧ ∀ event ∈ after, IsFlat event) →
      ∃ before after, first ++ rest.events = before ++ e.events ++ after ∧
        (∀ event ∈ before, IsFlat event) ∧ ∀ event ∈ after, IsFlat event := by
    rintro first rest hfirst ⟨before, after, heq, hbefore, hafter⟩
    exact ⟨first ++ before, after, by simp [heq], List.forall_mem_append.mpr ⟨hfirst, hbefore⟩, hafter⟩
  induction c with
  | text symbols => cases h
  | aside before a rest ih =>
    have hfirst : ∀ event ∈ textEvents before ++ [.skipped], IsFlat event :=
      List.forall_mem_append.mpr ⟨isFlat_textEvents before, by simp [IsFlat]⟩
    simpa [events] using hlater _ rest hfirst (ih h)
  | characterData before data rest ih =>
    have hfirst : ∀ event ∈ textEvents before ++ [.characterData data.content], IsFlat event :=
      List.forall_mem_append.mpr ⟨isFlat_textEvents before, by simp [IsFlat]⟩
    simpa [events] using hlater _ rest hfirst (ih h)
  | selfClosed before tag rest =>
    simp only [pieces, Piece.child?, List.filterMap_cons, List.cons.injEq] at h
    obtain ⟨rfl, hrest⟩ := h
    exact ⟨textEvents before, rest.events, by rw [events_selfClosed, List.append_assoc],
      isFlat_textEvents before, isFlat_events hrest⟩
  | element before tag inner trail rest =>
    simp only [pieces, Piece.child?, List.filterMap_cons, List.cons.injEq] at h
    obtain ⟨rfl, hrest⟩ := h
    exact ⟨textEvents before, rest.events, by rw [events_element, List.append_assoc],
      isFlat_textEvents before, isFlat_events hrest⟩

end Content

/-- A document is read as the events of its content. -/
theorem read_written (d : Document) : read d.written = ⟨d.content.events, none⟩ := by
  have hcontent : readFrom [] d.content.written = ⟨d.content.events, none⟩ := by
    have hread := d.content.readFrom_content [] [] (by simp)
    rw [List.append_nil, readFrom_text List.not_mem_nil] at hread
    simpa [Reading.prepend, Reading.pushText] using hread
  rw [← hcontent, Document.written]
  cases d.isMarked with
  | true => rfl
  | false =>
    rw [if_neg Bool.false_ne_true, List.nil_append, read.eq_def]
    split
    · next cs heq => exact absurd (heq ▸ rfl) d.unmarked
    · rfl

end KeywordIndex.Xml
