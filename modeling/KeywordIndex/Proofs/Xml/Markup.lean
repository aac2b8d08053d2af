import KeywordIndex.Proofs.Xml.Reading

namespace KeywordIndex.Xml

open Text

/-! # Markup

What stands between the texts of a document is markup of a few kinds, each with its own end. Markup is read
exactly if it is one of these and closes no other element than the innermost (`readMarkup_eq_ok_iff`), so a
document is read by going from one markup to the next (`reading_induction`).
-/

/-- What may stand in a tag: quotation marks are closed, and `>` stands only inside of them. -/
inductive TagText : List Char → Prop
  | nil : TagText []
  | plain {c : Char} {cs : List Char} (hc : c ≠ '>' ∧ c ≠ '"' ∧ c ≠ '\x27') (hcs : TagText cs) :
    TagText (c :: cs)
  | quoted (mark : QuoteMark) {value cs : List Char} (hvalue : mark.char ∉ value) (hcs : TagText cs) :
    TagText (mark.char :: (value ++ mark.char :: cs))

/-- One markup. -/
inductive Markup where
  | comment (content : List Char) (closed : ¬ ['-', '-', '>'] <:+: content)
  | instruction (content : List Char) (closed : ¬ ['?', '>'] <:+: '?' :: content)
  | doctype (content : List Char) (word : (content.take 7).map Char.toLower = doctypeWord)
      (named : ∃ c ∈ content.drop 7, isSpace c = false) (balanced : Balanced content)
  | characterData (data : CharacterData)
  | start (tag : Tag) (closed : TagText tag.content)
      (first : ∀ c ∈ tag.content.head?, c ≠ '!' ∧ c ≠ '/' ∧ c ≠ '?') (last : tag.content.getLast? ≠ some '/')
  /-- A tag that closes itself. -/
  | empty (tag : Tag) (closed : TagText (tag.content ++ ['/']))
      (first : ∀ c ∈ tag.content.head?, c ≠ '!' ∧ c ≠ '/' ∧ c ≠ '?') (nonempty : tag.content ≠ [])
  /-- An end tag. -/
  | finish (content : List Char) (closed : TagText content)

namespace Markup

/-- The markup after its `<`. -/
def written : Markup → List Char
  | comment content _ => ['!', '-', '-'] ++ content ++ ['-', '-', '>']
  | instruction content _ => '?' :: content ++ ['?', '>']
  | doctype content _ _ _ => '!' :: content ++ ['>']
  | characterData data => ['!', '[', 'C', 'D', 'A', 'T', 'A', '['] ++ data.content ++ [']', ']', '>']
  | start tag _ _ _ => tag.content ++ ['>']
  | empty tag _ _ _ => tag.content ++ ['/', '>']
  | finish content _ => '/' :: content ++ ['>']

def event : Markup → Event
  | comment _ _ => .skipped
  | instruction _ _ => .skipped
  | doctype _ _ _ _ => .skipped
  | characterData data => .characterData data.content
  | start tag _ _ _ => .opened tag
  | empty tag _ _ _ => .selfClosed tag
  | finish _ _ => .closed

/-- The names of the elements that are open behind the markup, innermost first. An end tag has to name the
innermost one. -/
def after? (names : List (List Char)) : Markup → Option (List (List Char))
  | start tag _ _ _ => some (tag.name :: names)
  | finish content _ =>
    match names with
    | [] => none
    | innermost :: outer => if endName content = innermost then some outer else none
  | _ => some names

end Markup

/-! ## Where markup ends -/

theorem TagText.passedInTag {cs : List Char} (h : TagText cs) : PassedInTag cs := by
  induction h with
  | nil => exact .nil
  | @plain c cs hc _ ih =>
    have hfirst : PassedInTag [c] := passedInTag_of_plain (by simpa using hc)
    exact hfirst.append ih
  | quoted mark hvalue _ ih => simpa using (passedInTag_quoted mark hvalue).append ih

/-- Quotation marks are closed behind what holds none. -/
theorem TagText.of_append {word cs : List Char} (hword : ∀ c ∈ word, c ≠ '"' ∧ c ≠ '\x27')
    (h : TagText (word ++ cs)) : TagText cs := by
  induction word with
  | nil => exact h
  | cons c word ih =>
    obtain ⟨hc, hword⟩ := List.forall_mem_cons.mp hword
    rw [List.cons_append] at h
    generalize htext : c :: (word ++ cs) = text at h
    cases h with
    | nil => cases htext
    | plain _ hcs =>
      obtain ⟨-, rfl⟩ := List.cons.inj htext
      exact ih hword hcs
    | quoted mark _ _ =>
      obtain ⟨rfl, -⟩ := List.cons.inj htext
      cases mark
      · exact absurd rfl hc.1
      · exact absurd rfl hc.2

theorem TagText.exists_value {cs : List Char} (h : TagText ('"' :: cs)) :
    ∃ value more, cs = value ++ '"' :: more ∧ '"' ∉ value := by
  generalize htext : '"' :: cs = text at h
  cases h with
  | nil => cases htext
  | plain hc _ => exact absurd (List.cons.inj htext).1.symm hc.2.1
  | quoted mark hvalue _ =>
    obtain ⟨hmark, rfl⟩ := List.cons.inj htext
    exact ⟨_, _, by rw [hmark], hmark ▸ hvalue⟩

/-- A tag is cut at its end. Where a quotation mark is open at the start, it is closed first. -/
theorem cutTag?_sound {cs inside rest : List Char} :
    (cutTag? none cs = some (inside, rest) → TagText inside ∧ cs = inside ++ '>' :: rest) ∧
      ∀ mark : QuoteMark, cutTag? (some mark.char) cs = some (inside, rest) →
        (∃ value more, inside = value ++ mark.char :: more ∧ mark.char ∉ value ∧ TagText more) ∧
          cs = inside ++ '>' :: rest := by
  induction cs generalizing inside with
  | nil => simp [cutTag?]
  | cons c cs ih =>
    constructor
    · intro h
      rw [cutTag?] at h
      by_cases hend : c = '>'
      · rw [if_pos ⟨rfl, hend⟩] at h
        obtain ⟨rfl, rfl⟩ := Prod.mk.inj (Option.some.inj h)
        exact ⟨.nil, by rw [hend]; rfl⟩
      · rw [if_neg fun h => hend h.2] at h
        obtain ⟨⟨later, rest⟩, hcut, heq⟩ := Option.map_eq_some_iff.mp h
        obtain ⟨rfl, rfl⟩ := Prod.mk.inj heq
        by_cases hquote : c = '"' ∨ c = '\x27'
        · obtain ⟨mark, rfl⟩ : ∃ mark : QuoteMark, mark.char = c := by
            rcases hquote with rfl | rfl
            · exact ⟨.double, rfl⟩
            · exact ⟨.single, rfl⟩
          rw [openAfter, if_pos hquote] at hcut
          obtain ⟨⟨value, more, rfl, hvalue, hmore⟩, rfl⟩ := ih.2 mark hcut
          exact ⟨.quoted mark hvalue hmore, rfl⟩
        · rw [openAfter, if_neg hquote] at hcut
          obtain ⟨hlater, rfl⟩ := ih.1 hcut
          exact ⟨.plain ⟨hend, not_or.mp hquote⟩ hlater, rfl⟩
    · intro mark h
      rw [cutTag?, if_neg (by simp)] at h
      obtain ⟨⟨later, rest⟩, hcut, heq⟩ := Option.map_eq_some_iff.mp h
      obtain ⟨rfl, rfl⟩ := Prod.mk.inj heq
      rw [openAfter] at hcut
      split at hcut
      · next hmark =>
        obtain ⟨hlater, rfl⟩ := ih.1 hcut
        exact ⟨⟨[], later, by rw [hmark]; rfl, by simp, hlater⟩, rfl⟩
      · next hmark =>
        obtain ⟨⟨value, more, rfl, hvalue, hmore⟩, rfl⟩ := ih.2 mark hcut
        refine ⟨⟨c :: value, more, rfl, ?_, hmore⟩, rfl⟩
        rw [List.mem_cons, not_or]
        exact ⟨fun heq => hmark heq.symm, hvalue⟩

theorem cutTag?_eq_some_iff {cs inside rest : List Char} :
    cutTag? none cs = some (inside, rest) ↔ TagText inside ∧ cs = inside ++ '>' :: rest := by
  refine ⟨cutTag?_sound.1, ?_⟩
  rintro ⟨hinside, rfl⟩
  exact cutTag?_of_passed hinside.passedInTag rest

instance (cs : List Char) : Decidable (TagText cs) :=
  decidable_of_iff (cutTag? none (cs ++ '>' :: []) = some (cs, []))
    (cutTag?_eq_some_iff.trans (and_iff_left rfl))

/-- Brackets are cut off where one closes that was not opened, `depth` of them being open at the start. -/
theorem cutBalanced?_sound {cs inside rest : List Char} {depth : Nat}
    (h : cutBalanced? depth cs = some (inside, rest)) :
    (∀ before, before <+: inside → before.count '>' ≤ depth + before.count '<') ∧
      depth + inside.count '<' = inside.count '>' ∧ cs = inside ++ '>' :: rest := by
  induction cs generalizing depth inside with
  | nil => simp [cutBalanced?] at h
  | cons c cs ih =>
    rw [cutBalanced?] at h
    split at h
    · next hend =>
      obtain ⟨rfl, rfl⟩ := Prod.mk.inj (Option.some.inj h)
      obtain ⟨rfl, rfl⟩ := hend
      simp
    · next hend =>
      obtain ⟨⟨later, rest⟩, hcut, heq⟩ := Option.map_eq_some_iff.mp h
      obtain ⟨rfl, rfl⟩ := Prod.mk.inj heq
      obtain ⟨hopened, hclosed, rfl⟩ := ih hcut
      -- the depth behind the character is what is open there
      refine ⟨fun before hbefore => ?_, ?_, rfl⟩
      · rcases List.prefix_cons_iff.mp hbefore with rfl | ⟨tail, rfl, htail⟩
        · simp
        · have htail := hopened tail htail
          simp only [List.count_cons, beq_iff_eq]
          grind
      · simp only [List.count_cons, beq_iff_eq]
        grind

theorem cutBalanced?_eq_some_iff {cs inside rest : List Char} :
    cutBalanced? 0 cs = some (inside, rest) ↔ Balanced inside ∧ cs = inside ++ '>' :: rest := by
  constructor
  · intro h
    obtain ⟨hopened, hclosed, hcs⟩ := cutBalanced?_sound h
    exact ⟨⟨fun before hbefore => by simpa using hopened before hbefore, by simpa using hclosed⟩, hcs⟩
  · rintro ⟨hbalanced, rfl⟩
    exact cutBalanced?_append (fun before hbefore => by simpa using hbalanced.opened before hbefore)
      (by simpa using hbalanced.closed) rest

/-! ## Reading markup -/

theorem eq_of_toLower_eq {c : Char} (h : c.toLower = 'd') : c = 'D' ∨ c = 'd' := by
  unfold Char.toLower at h
  split at h
  · refine Or.inl (Char.ext ?_)
    have hval : c.val + ('a'.val - 'A'.val) = 'd'.val := congrArg Char.val h
    rw [← UInt32.add_sub_cancel c.val ('a'.val - 'A'.val), hval]
    decide
  · exact Or.inr h

variable {names : List (List Char)}

theorem readDeclaration_doctype {content : List Char}
    (hword : (content.take 7).map Char.toLower = doctypeWord) (rest : List Char) :
    readDeclaration names (content ++ rest) = readDoctype names (content ++ rest) := by
  cases content with
  | nil => cases hword
  | cons c content =>
    rw [doctypeWord, List.take_succ_cons, List.map_cons] at hword
    rcases eq_of_toLower_eq (List.cons.inj hword).1 with rfl | rfl <;> rfl

theorem readMarkup_of_plain {cs : List Char} (hne : cs ≠ [])
    (hfirst : ∀ c ∈ cs.head?, c ≠ '!' ∧ c ≠ '/' ∧ c ≠ '?') : readMarkup names cs = readStart names cs := by
  cases cs with
  | nil => exact absurd rfl hne
  | cons c cs =>
    obtain ⟨hbang, hslash, hquestion⟩ := hfirst c rfl
    rw [readMarkup.eq_def]
    split
    · next heq => cases heq
    · next heq => exact absurd (List.cons.inj heq).1 hbang
    · next heq => exact absurd (List.cons.inj heq).1 hslash
    · next heq => exact absurd (List.cons.inj heq).1 hquestion
    · rfl

/-- A tag that does not begin like other markup opens an element, and closes it as well if it ends in a
slash. -/
theorem readMarkup_tag (names : List (List Char)) {content : List Char} (hclosed : TagText content)
    (hfirst : ∀ c ∈ content.head?, c ≠ '!' ∧ c ≠ '/' ∧ c ≠ '?') (rest : List Char) :
    readMarkup names (content ++ '>' :: rest) =
      if content.getLast? = some '/' then .ok ⟨.selfClosed ⟨content.dropLast⟩, names, rest⟩
      else .ok ⟨.opened ⟨content⟩, (Tag.mk content).name :: names, rest⟩ := by
  have hcut : cutTag? none (content ++ '>' :: rest) = some (content, rest) :=
    cutTag?_eq_some_iff.mpr ⟨hclosed, rfl⟩
  have hplain : ∀ c ∈ (content ++ '>' :: rest).head?, c ≠ '!' ∧ c ≠ '/' ∧ c ≠ '?' := by
    cases content with
    | nil => simp
    | cons c more => simpa using hfirst
  rw [readMarkup_of_plain (by simp) hplain, readStart, hcut]

theorem readMarkup_doctype {content : List Char} (hword : (content.take 7).map Char.toLower = doctypeWord)
    (hnamed : ∃ c ∈ content.drop 7, isSpace c = false) (hbalanced : Balanced content) (rest : List Char) :
    readMarkup names ('!' :: (content ++ '>' :: rest)) = .ok ⟨.skipped, names, rest⟩ := by
  have hcut : cutBalanced? 0 (content ++ '>' :: rest) = some (content, rest) :=
    cutBalanced?_eq_some_iff.mpr ⟨hbalanced, rfl⟩
  have hname : (content.drop 7).all isSpace = false := by
    obtain ⟨c, hc, hspace⟩ := hnamed
    exact List.all_eq_false.mpr ⟨c, hc, by simp [hspace]⟩
  rw [readMarkup, readDeclaration_doctype hword, readDoctype, hcut]
  simp [hword, hname]

/-- An end tag closes the innermost element if it names it. -/
theorem readMarkup_end {content innermost : List Char} {outer : List (List Char)} (hclosed : TagText content)
    (hname : endName content = innermost) (rest : List Char) :
    readMarkup (innermost :: outer) ('/' :: (content ++ '>' :: rest)) = .ok ⟨.closed, outer, rest⟩ := by
  have hcut : cutTag? none (content ++ '>' :: rest) = some (content, rest) :=
    cutTag?_eq_some_iff.mpr ⟨hclosed, rfl⟩
  rw [readMarkup, readEnd, hcut]
  exact if_pos hname

theorem Markup.readMarkup_written (m : Markup) {inner : List (List Char)} (h : m.after? names = some inner)
    (rest : List Char) : readMarkup names (m.written ++ rest) = .ok ⟨m.event, inner, rest⟩ := by
  cases m with
  | comment content hclosed =>
    obtain rfl := Option.some.inj h
    exact readMarkup_aside names (.comment content hclosed) rest
  | instruction content hclosed =>
    obtain rfl := Option.some.inj h
    exact readMarkup_aside names (.instruction content hclosed) rest
  | doctype content hword hnamed hbalanced =>
    obtain rfl := Option.some.inj h
    simpa [written, event] using readMarkup_doctype hword hnamed hbalanced rest
  | characterData data =>
    obtain rfl := Option.some.inj h
    simpa [written, event] using readMarkup_characterData names data rest
  | start tag hclosed hfirst hlast =>
    obtain rfl := Option.some.inj h
    have hread := readMarkup_tag names hclosed hfirst rest
    rw [if_neg hlast] at hread
    simpa [written, event] using hread
  | empty tag hclosed hfirst hne =>
    obtain rfl := Option.some.inj h
    have hplain : ∀ c ∈ (tag.content ++ ['/']).head?, c ≠ '!' ∧ c ≠ '/' ∧ c ≠ '?' := by
      cases hcontent : tag.content with
      | nil => exact absurd hcontent hne
      | cons c more => simpa [hcontent] using hfirst
    have hread := readMarkup_tag names hclosed hplain rest
    rw [if_pos (by simp), List.dropLast_concat] at hread
    simpa [written, event] using hread
  | finish content hclosed =>
    cases names with
    | nil => cases h
    | cons innermost outer =>
      rw [after?] at h
      split at h
      · next hname =>
        obtain rfl := Option.some.inj h
        simpa [written, event] using readMarkup_end hclosed hname rest
      · cases h

/-- The markup is at the front of a text, and leads to the step. -/
structure Markup.LeadsTo (m : Markup) (names : List (List Char)) (cs : List Char) (step : Step) : Prop where
  text_eq : cs = m.written ++ step.rest
  event_eq : step.event = m.event
  names_eq : m.after? names = some step.names

section Sound

variable {cs : List Char} {step : Step}

theorem exists_of_readDoctype (h : readDoctype names cs = .ok step) :
    ∃ m : Markup, m.LeadsTo names ('!' :: cs) step := by
  unfold readDoctype at h
  split at h
  · cases h
  · next inside rest hcut =>
    split at h
    · next hword =>
      split at h
      · cases h
      · next hspaces =>
        cases h
        have hnamed : ∃ c ∈ inside.drop 7, isSpace c = false := by simpa using hspaces
        obtain ⟨hbalanced, rfl⟩ := cutBalanced?_eq_some_iff.mp hcut
        exact ⟨.doctype inside hword hnamed hbalanced, by simp [Markup.written], rfl, rfl⟩
    · cases h

theorem exists_of_readDeclaration (h : readDeclaration names cs = .ok step) :
    ∃ m : Markup, m.LeadsTo names ('!' :: cs) step := by
  rw [readDeclaration.eq_def] at h
  split at h
  · next comment =>
    unfold readComment at h
    split at h
    · next content rest hcut =>
      cases h
      have hclosed : ¬ ['-', '-', '>'] <:+: content := not_infix_of_cutAt? (by decide) hcut
      exact ⟨.comment content hclosed, by simp [Markup.written, eq_of_cutAt? hcut], rfl, rfl⟩
    · cases h
  · cases h
  · split at h
    · next data hafter =>
      unfold readCharacterData at h
      split at h
      · next content rest hcut =>
        cases h
        have hclosed : ¬ [']', ']', '>'] <:+: content := not_infix_of_cutAt? (by decide) hcut
        exact ⟨.characterData ⟨content, hclosed⟩,
          by simp [Markup.written, after?_eq_some_iff.mp hafter, eq_of_cutAt? hcut], rfl, rfl⟩
      · cases h
    · cases h
  · exact exists_of_readDoctype h
  · exact exists_of_readDoctype h
  · cases h

theorem exists_of_readInstruction {more : List Char} (h : readInstruction names ('?' :: more) = .ok step) :
    ∃ m : Markup, m.LeadsTo names ('?' :: more) step := by
  unfold readInstruction at h
  split at h
  · next c content rest hcut =>
    cases h
    have htext := eq_of_cutAt? hcut
    obtain ⟨rfl, hmore⟩ := List.cons.inj htext
    have hclosed : ¬ ['?', '>'] <:+: '?' :: content := not_infix_of_cutAt? (by decide) hcut
    exact ⟨.instruction content hclosed, htext, rfl, rfl⟩
  · cases h

theorem exists_of_readEnd (h : readEnd names cs = .ok step) :
    ∃ m : Markup, m.LeadsTo names ('/' :: cs) step := by
  unfold readEnd at h
  split at h
  · cases h
  · next content rest hcut =>
    obtain ⟨hcontent, rfl⟩ := cutTag?_eq_some_iff.mp hcut
    cases names with
    | nil => cases h
    | cons innermost outer =>
      simp only at h
      split at h
      · next hname =>
        cases h
        exact ⟨.finish content hcontent, by simp [Markup.written], rfl, by simp [Markup.after?, hname]⟩
      · cases h

theorem exists_of_readStart (hfirst : ∀ c ∈ cs.head?, c ≠ '!' ∧ c ≠ '/' ∧ c ≠ '?')
    (h : readStart names cs = .ok step) : ∃ m : Markup, m.LeadsTo names cs step := by
  unfold readStart at h
  split at h
  · cases h
  · next content rest hcut =>
    obtain ⟨hcontent, rfl⟩ := cutTag?_eq_some_iff.mp hcut
    have hplain : ∀ c ∈ content.head?, c ≠ '!' ∧ c ≠ '/' ∧ c ≠ '?' := by
      intro c hc
      refine hfirst c ?_
      rw [List.head?_append, Option.mem_def.mp hc]
      rfl
    split at h
    · next hslash =>
      cases h
      obtain ⟨inside, rfl⟩ := List.getLast?_eq_some_iff.mp hslash
      -- a slash alone would have been an end tag
      have hne : inside ≠ [] := by
        rintro rfl
        exact (hplain '/' rfl).2.1 rfl
      refine ⟨.empty ⟨inside⟩ hcontent (fun c hc => hplain c ?_) hne, ?_, ?_, rfl⟩
      · rw [List.head?_append, Option.mem_def.mp hc]
        rfl
      · simp [Markup.written]
      · simp [Markup.event]
    · next hslash =>
      cases h
      exact ⟨.start ⟨content⟩ hcontent hplain hslash, by simp [Markup.written], rfl, rfl⟩

end Sound

/-- Markup is read if it is of one of the kinds and closes only the innermost element. -/
theorem readMarkup_eq_ok_iff {cs : List Char} {step : Step} :
    readMarkup names cs = .ok step ↔ ∃ m : Markup, m.LeadsTo names cs step := by
  constructor
  · intro h
    rw [readMarkup.eq_def] at h
    split at h
    · cases h
    · exact exists_of_readDeclaration h
    · exact exists_of_readEnd h
    · exact exists_of_readInstruction h
    · next hne hbang hslash hquestion =>
      refine exists_of_readStart (fun c hc => ?_) h
      obtain ⟨more, rfl⟩ : ∃ more, cs = c :: more := by
        cases cs with
        | nil => cases hc
        | cons d more => exact ⟨more, by rw [Option.some.inj hc]⟩
      exact ⟨fun e => hbang more (by rw [e]), fun e => hslash more (by rw [e]),
        fun e => hquestion more (by rw [e])⟩
  · rintro ⟨m, rfl, hevent, hnames⟩
    rw [m.readMarkup_written hnames, ← hevent]

/-! ## Reading from markup to markup -/

/-- A text without markup is all that is left, or markup follows a text; when that is read, what follows it
is next. -/
theorem reading_induction {motive : List (List Char) → List Char → Prop}
    (text : ∀ names cs, '<' ∉ cs → motive names cs)
    (fault : ∀ names before markup fault, '<' ∉ before → readMarkup names markup = .error fault →
      motive names (before ++ '<' :: markup))
    (step : ∀ names before (m : Markup) inner rest, '<' ∉ before → m.after? names = some inner →
      motive inner rest → motive names (before ++ '<' :: (m.written ++ rest)))
    (names : List (List Char)) (cs : List Char) : motive names cs := by
  induction hlength : cs.length using Nat.strong_induction_on generalizing names cs with
  | _ length ih =>
    subst hlength
    by_cases hmem : '<' ∈ cs
    · obtain ⟨before, markup, rfl, hbefore⟩ := List.eq_append_cons_of_mem hmem
      cases hread : readMarkup names markup with
      | error reason => exact fault names before markup reason hbefore hread
      | ok found =>
        obtain ⟨m, rfl, -, hnames⟩ := readMarkup_eq_ok_iff.mp hread
        refine step names before m found.names found.rest hbefore hnames (ih _ ?_ _ _ rfl)
        rw [List.length_append, List.length_cons, List.length_append]
        omega
    · exact text names cs hmem

theorem readFrom_written {before : List Char} (hbefore : '<' ∉ before) {m : Markup}
    {inner : List (List Char)} (hm : m.after? names = some inner) (rest : List Char) :
    readFrom names (before ++ '<' :: (m.written ++ rest)) =
      ((readFrom inner rest).push m.event).pushText before := by
  rw [readFrom_markup names hbefore, m.readMarkup_written hm]

theorem readFrom_fault {before markup : List Char} (hbefore : '<' ∉ before) {fault : Fault}
    (hread : readMarkup names markup = .error fault) :
    readFrom names (before ++ '<' :: markup) = (⟨[], some fault⟩ : Reading).pushText before := by
  rw [readFrom_markup names hbefore, hread]

end KeywordIndex.Xml
