import KeywordIndex.Libdoc.Walk
import KeywordIndex.Proofs.Xml.Reading

namespace KeywordIndex.Libdoc

open Text
open Xml (Content Element Piece StartTag)

/-! # Levels of a library document

What an element means depends on the names of the elements around it. Each path of names is at a `Level`, and
the level of a child follows from its name and the level of its parent. So the walk through an element is the
walk through its content, framed by what its level adds when it is opened and closed
(`foldlM_element_keyword`, `foldlM_element_argument` and `foldlM_element`).
-/

/-- What the innermost open element is. -/
inductive Level where
  | outside
  | root
  | keywords
  | keyword
  | documentation
  | arguments
  | argument
  /-- Nothing in it counts. -/
  | ignored
  deriving DecidableEq

namespace Level

/-- The level of a child. -/
def below (level : Level) (name : List Char) : Level :=
  match level with
  | outside => if name = rootName then root else ignored
  | root => if name = keywordName then keyword else if name = keywordsName then keywords else ignored
  | keywords => if name = keywordName then keyword else ignored
  | keyword =>
    if name = documentationName then documentation
    else if name = argumentsName then arguments
    else ignored
  | arguments => if name = argumentName then argument else ignored
  | _ => ignored

/-- The levels of children that count, with the levels and names that they come from. -/
def steps : List (Level × List Char × Level) :=
  [(outside, rootName, root), (root, keywordName, keyword), (root, keywordsName, keywords),
    (keywords, keywordName, keyword), (keyword, documentationName, documentation),
    (keyword, argumentsName, arguments), (arguments, argumentName, argument)]

theorem below_eq_iff {level child : Level} {name : List Char} (h : child ≠ ignored) :
    level.below name = child ↔ (level, name, child) ∈ steps := by
  have hkeywords : keywordsName ≠ keywordName := by decide
  have harguments : argumentsName ≠ documentationName := by decide
  simp only [steps, List.mem_cons, Prod.mk.injEq, List.not_mem_nil, or_false]
  cases level with
  | documentation | argument | ignored => simp [below, h.symm]
  | _ => simp only [below]; split_ifs <;> simp_all [eq_comm]

end Level

namespace ElementPath

/-- The level of the innermost element. -/
def level : ElementPath → Level
  | [] => .outside
  | name :: outer => (level outer).below name

variable {path : ElementPath}

theorem level_eq_outside_iff : path.level = .outside ↔ path = [] := by
  cases path with
  | nil => simp [level]
  | cons name outer => simp [level, Level.below_eq_iff, Level.steps]

theorem level_eq_root_iff : path.level = .root ↔ path = [rootName] := by
  cases path with
  | nil => simp [level]
  | cons name outer =>
    simp [level, Level.below_eq_iff, Level.steps, level_eq_outside_iff, and_comm]

theorem level_eq_keywords_iff : path.level = .keywords ↔ path = [keywordsName, rootName] := by
  cases path with
  | nil => simp [level]
  | cons name outer =>
    simp [level, Level.below_eq_iff, Level.steps, level_eq_root_iff, and_comm]

theorem isKeyword_iff : path.isKeyword = true ↔ path.level = .keyword := by
  have hlevel : path.level = .keyword ↔
      path = [keywordName, rootName] ∨ path = [keywordName, keywordsName, rootName] := by
    cases path with
    | nil => simp [level]
    | cons name outer =>
      simp [level, Level.below_eq_iff, Level.steps, level_eq_root_iff, level_eq_keywords_iff, and_comm]
  rw [hlevel]
  unfold isKeyword
  split <;> simp_all [and_assoc]

theorem isArgument_iff : path.isArgument = true ↔ path.level = .argument := by
  match path with
  | [] => simp [isArgument, level]
  | [name] => simp [isArgument, level, Level.below_eq_iff, Level.steps]
  | name :: outer :: more =>
    simp [isArgument, level, Level.below_eq_iff, Level.steps, ← isKeyword_iff, and_comm, and_assoc]

theorem isDocumentation_iff : path.isDocumentation = true ↔ path.level = .documentation := by
  cases path with
  | nil => simp [isDocumentation, level]
  | cons name outer =>
    simp [isDocumentation, level, Level.below_eq_iff, Level.steps, ← isKeyword_iff, and_comm]

end ElementPath

/-! ## Elements -/

section Runs

variable {w w' : Walk} {event : Xml.Event} {events rest : List Xml.Event}

theorem foldlM_cons_of_read (h : w.read event = .ok w') :
    (event :: rest).foldlM Walk.read w = rest.foldlM Walk.read w' := by
  rw [List.foldlM_cons, h]
  rfl

theorem foldlM_append_of_foldlM (h : events.foldlM Walk.read w = .ok w') :
    (events ++ rest).foldlM Walk.read w = rest.foldlM Walk.read w' := by
  rw [List.foldlM_append, h]
  rfl

end Runs

section Elements

variable {path : ElementPath} {e : Element} {draft draft' : Option Draft} {d d' : Draft}
  {kept kept' : List Declaration}

/-- A tag that closes itself is read as one that is opened and closed. -/
theorem read_selfClosed (hpath : path ≠ []) (t : StartTag)
    (hdraft : ElementPath.isKeyword (t.localName :: path) = true → draft = none) :
    Walk.read ⟨path, draft, kept, true⟩ (.selfClosed t.tag) =
      (Walk.read ⟨path, draft, kept, true⟩ (.opened t.tag)).bind fun inside => inside.read .closed := by
  rw [← t.localName_tag] at hdraft
  cases hkeyword : ElementPath.isKeyword (t.tag.localName :: path) with
  | true =>
    rw [hdraft hkeyword]
    cases hbegun : Draft.ofTag t.tag <;>
      simp [Walk.read, Walk.passElement, Walk.openElement, Walk.closeElement, hpath, hkeyword, hbegun,
        Except.map, Except.mapError, Except.bind]
  | false =>
    cases draft with
    | none =>
      simp [Walk.read, Walk.passElement, Walk.openElement, Walk.closeElement, hpath, hkeyword,
        Except.mapError, Except.bind]
    | some d =>
      cases hargument : ElementPath.isArgument (t.tag.localName :: path) with
      | true =>
        cases hbegun : d.openArgument t.tag <;>
          simp [Walk.read, Walk.passElement, Walk.openElement, Walk.closeElement, hpath, hkeyword,
            hargument, hbegun, Except.map, Except.mapError, Except.bind]
      | false =>
        simp [Walk.read, Walk.passElement, Walk.openElement, Walk.closeElement, hpath, hkeyword,
          hargument, Except.mapError, Except.bind]

/-- The walk through an element is the walk through its content between its tags. -/
theorem foldlM_events (hpath : path ≠ [])
    (hdraft : ElementPath.isKeyword (e.localName :: path) = true → draft = none) {inside inside' w : Walk}
    (hopened : Walk.read ⟨path, draft, kept, true⟩ (.opened e.tag.tag) = .ok inside)
    (hinner : e.innerEvents.foldlM Walk.read inside = .ok inside') (hclosed : inside'.read .closed = .ok w) :
    e.events.foldlM Walk.read ⟨path, draft, kept, true⟩ = .ok w := by
  obtain ⟨tag, body⟩ := e
  cases body with
  | none =>
    obtain rfl := Except.ok.inj hinner
    have hread : Walk.read ⟨path, draft, kept, true⟩ (.selfClosed tag.tag) = .ok w := by
      rw [read_selfClosed hpath tag hdraft, hopened]
      exact hclosed
    exact foldlM_cons_of_read hread
  | some content =>
    have hcontent : content.events.foldlM Walk.read inside = .ok inside' := hinner
    rw [Element.events, foldlM_cons_of_read hopened, foldlM_append_of_foldlM hcontent]
    exact foldlM_cons_of_read hclosed

/-- An element that begins neither a keyword nor an argument adds nothing of its own. -/
theorem foldlM_element (hpath : path ≠ []) (hkeyword : ElementPath.level (e.localName :: path) ≠ .keyword)
    (hargument : ElementPath.level (e.localName :: path) ≠ .argument)
    (hinner : e.innerEvents.foldlM Walk.read ⟨e.localName :: path, draft, kept, true⟩ =
      .ok ⟨e.localName :: path, draft', kept', true⟩) :
    e.events.foldlM Walk.read ⟨path, draft, kept, true⟩ = .ok ⟨path, draft', kept', true⟩ := by
  rw [Ne, ← ElementPath.isKeyword_iff, Bool.not_eq_true] at hkeyword
  rw [Ne, ← ElementPath.isArgument_iff, Bool.not_eq_true] at hargument
  refine foldlM_events hpath (by simp [hkeyword]) ?_ hinner ?_
  · have hname : e.tag.tag.localName = e.localName := e.tag.localName_tag
    cases draft <;>
      simp [Walk.read, Walk.openElement, hpath, hname, hkeyword, hargument, Except.mapError]
  · cases draft' <;> simp [Walk.read, Walk.closeElement, hkeyword, hargument]

/-- A keyword is begun where its element is opened and finished where it is closed. -/
theorem foldlM_element_keyword (hpath : path ≠ [])
    (hlevel : ElementPath.level (e.localName :: path) = .keyword)
    (hinner : e.innerEvents.foldlM Walk.read
        ⟨e.localName :: path, some { name := (e.attribute? nameAttribute).getD [] }, kept, true⟩ =
      .ok ⟨e.localName :: path, some d, kept, true⟩) :
    e.events.foldlM Walk.read ⟨path, none, kept, true⟩ = .ok ⟨path, none, kept ++ [d.finish], true⟩ := by
  rw [← ElementPath.isKeyword_iff] at hlevel
  refine foldlM_events hpath (fun _ => rfl) ?_ hinner ?_
  · have hname : e.tag.tag.localName = e.localName := e.tag.localName_tag
    simp [Walk.read, Walk.openElement, Draft.ofTag, e.tag.value?_tag, Element.attribute?, hpath, hname,
      hlevel, Except.map, Except.mapError]
  · simp [Walk.read, Walk.closeElement, hlevel]

/-- An argument is begun where its element is opened and ended where it is closed. -/
theorem foldlM_element_argument (hpath : path ≠ [])
    (hlevel : ElementPath.level (e.localName :: path) = .argument)
    (hinner : e.innerEvents.foldlM Walk.read ⟨e.localName :: path,
        some { d with
          representations := d.representations ++ (e.attribute? reprAttribute).toList
          argument := some [] }, kept, true⟩ =
      .ok ⟨e.localName :: path, some d', kept, true⟩) :
    e.events.foldlM Walk.read ⟨path, some d, kept, true⟩ =
      .ok ⟨path, some d'.closeArgument, kept, true⟩ := by
  have hkeyword : ElementPath.isKeyword (e.localName :: path) = false := by
    rw [← Bool.not_eq_true, ElementPath.isKeyword_iff, hlevel]
    decide
  rw [← ElementPath.isArgument_iff] at hlevel
  refine foldlM_events hpath (by simp [hkeyword]) ?_ hinner ?_
  · have hname : e.tag.tag.localName = e.localName := e.tag.localName_tag
    simp [Walk.read, Walk.openElement, Draft.openArgument, e.tag.value?_tag, Element.attribute?, hpath,
      hname, hkeyword, hlevel, Except.map, Except.mapError]
  · simp [Walk.read, Walk.closeElement, hkeyword, hlevel]

end Elements

/-! ## Contents -/

theorem addText_nil (w : Walk) : w.addText [] = w := by
  obtain ⟨path, draft, kept, rooted⟩ := w
  cases draft with
  | none => rfl
  | some d => simp [Walk.addText, Draft.addText]

theorem read_text (w : Walk) (symbols : List Xml.Symbol) :
    w.read (.text (Xml.writtenText symbols)) = .ok (w.addText (Xml.textOf symbols)) := by
  obtain ⟨path, draft, kept, rooted⟩ := w
  cases draft <;> simp [Walk.read, Walk.addText, Xml.unescape_writtenText, Except.map, Except.mapError]

theorem foldlM_textEvents (w : Walk) (symbols : List Xml.Symbol) :
    (Content.textEvents symbols).foldlM Walk.read w = .ok (w.addText (Xml.textOf symbols)) := by
  cases symbols with
  | nil => rw [show Xml.textOf [] = [] from rfl, addText_nil]; rfl
  | cons s symbols =>
    simp [Content.textEvents, read_text, bind, Except.bind, pure, Except.pure]

/-- The walk through a content follows its pieces, if it does so at each text and each child. -/
theorem foldlM_content {σ : Type} (place : σ → Walk) (step : σ → Piece → σ)
    (htext : ∀ s content, (place s).addText content = place (step s (.text content)))
    (hchild : ∀ s (e : Element),
      e.events.foldlM Walk.read (place s) = .ok (place (step s (.child e))))
    (c : Content) (s : σ) : c.events.foldlM Walk.read (place s) = .ok (place (c.pieces.foldl step s)) := by
  have hfirst : ∀ symbols s, (Content.textEvents symbols).foldlM Walk.read (place s) =
      .ok (place (step s (.text (Xml.textOf symbols)))) := fun symbols s =>
    (foldlM_textEvents (place s) symbols).trans (congrArg Except.ok (htext s _))
  -- elements are passed in one stride, so what is inside them needs no hypothesis of the induction
  induction c generalizing s with
  | text symbols => exact hfirst symbols s
  | aside before a rest ih =>
    have hskipped : ∀ s, (place s).read .skipped = .ok (place s) := fun _ => rfl
    rw [Content.events, foldlM_append_of_foldlM (hfirst before s), foldlM_cons_of_read (hskipped _)]
    exact ih _
  | characterData before data rest ih =>
    have hdata : ∀ s, (place s).read (.characterData data.content) =
        .ok (place (step s (.text data.content))) := fun s => congrArg Except.ok (htext s _)
    rw [Content.events, foldlM_append_of_foldlM (hfirst before s), foldlM_cons_of_read (hdata _)]
    exact ih _
  | selfClosed before tag rest ih =>
    rw [Content.events_selfClosed, foldlM_append_of_foldlM (hfirst before s),
      foldlM_append_of_foldlM (hchild _ _)]
    exact ih _
  | element before tag inner trail rest _ ih =>
    rw [Content.events_element, foldlM_append_of_foldlM (hfirst before s),
      foldlM_append_of_foldlM (hchild _ _)]
    exact ih _

/-- The same for what is between the tags of an element. -/
theorem foldlM_innerEvents {σ : Type} (place : σ → Walk) (step : σ → Piece → σ)
    (htext : ∀ s content, (place s).addText content = place (step s (.text content)))
    (hchild : ∀ s (e : Element),
      e.events.foldlM Walk.read (place s) = .ok (place (step s (.child e))))
    (e : Element) (s : σ) :
    e.innerEvents.foldlM Walk.read (place s) = .ok (place (e.pieces.foldl step s)) := by
  obtain ⟨tag, body⟩ := e
  cases body with
  | none => rfl
  | some content => exact foldlM_content place step htext hchild content s

/-! ## Ignored elements -/

theorem addText_ignored {path : ElementPath} (hlevel : path.level = .ignored) (draft : Option Draft)
    (kept : List Declaration) (content : List Char) :
    Walk.addText ⟨path, draft, kept, true⟩ content = ⟨path, draft, kept, true⟩ := by
  have hdocumentation : path.isDocumentation = false := by
    rw [← Bool.not_eq_true, ElementPath.isDocumentation_iff, hlevel]
    decide
  have hargument : path.isArgument = false := by
    rw [← Bool.not_eq_true, ElementPath.isArgument_iff, hlevel]
    decide
  cases draft <;> simp [Walk.addText, Draft.addText, hdocumentation, hargument]

/-- The walk through an ignored element is the walk through its content, which is ignored too. -/
theorem foldlM_element_ignored {path : ElementPath} (hpath : path ≠ []) {e : Element}
    (hlevel : ElementPath.level (e.localName :: path) = .ignored) {draft : Option Draft}
    {kept : List Declaration}
    (hinner : e.innerEvents.foldlM Walk.read ⟨e.localName :: path, draft, kept, true⟩ =
      .ok ⟨e.localName :: path, draft, kept, true⟩) :
    e.events.foldlM Walk.read ⟨path, draft, kept, true⟩ = .ok ⟨path, draft, kept, true⟩ :=
  foldlM_element hpath (by rw [hlevel]; decide) (by rw [hlevel]; decide) hinner

/-- Nothing below an ignored element counts. -/
theorem foldlM_ignored (c : Content) {path : ElementPath} (hlevel : path.level = .ignored)
    (draft : Option Draft) (kept : List Declaration) :
    c.events.foldlM Walk.read ⟨path, draft, kept, true⟩ = .ok ⟨path, draft, kept, true⟩ := by
  have hpath : ∀ {path : ElementPath}, path.level = .ignored → path ≠ [] := by
    rintro _ hlevel rfl
    cases hlevel
  have hbelow : ∀ {path : ElementPath} (name : List Char), path.level = .ignored →
      ElementPath.level (name :: path) = .ignored := by
    intro path name hlevel
    rw [ElementPath.level, hlevel]
    rfl
  have hfirst : ∀ {path : ElementPath} (symbols : List Xml.Symbol), path.level = .ignored →
      (Content.textEvents symbols).foldlM Walk.read ⟨path, draft, kept, true⟩ =
        .ok ⟨path, draft, kept, true⟩ := fun symbols hlevel =>
    (foldlM_textEvents _ symbols).trans (congrArg Except.ok (addText_ignored hlevel draft kept _))
  -- the content of an element inside is walked at a longer path, where nothing counts either
  induction c generalizing path with
  | text symbols => exact hfirst symbols hlevel
  | aside before a rest ih =>
    rw [Content.events, foldlM_append_of_foldlM (hfirst before hlevel)]
    exact ih hlevel
  | characterData before data rest ih =>
    have hdata : Walk.read ⟨path, draft, kept, true⟩ (.characterData data.content) =
        .ok ⟨path, draft, kept, true⟩ := congrArg Except.ok (addText_ignored hlevel draft kept _)
    rw [Content.events, foldlM_append_of_foldlM (hfirst before hlevel), foldlM_cons_of_read hdata]
    exact ih hlevel
  | selfClosed before tag rest ih =>
    have helement : (⟨tag, none⟩ : Element).events.foldlM Walk.read ⟨path, draft, kept, true⟩ =
        .ok ⟨path, draft, kept, true⟩ := foldlM_element_ignored (hpath hlevel) (hbelow _ hlevel) rfl
    rw [Content.events_selfClosed, foldlM_append_of_foldlM (hfirst before hlevel),
      foldlM_append_of_foldlM helement]
    exact ih hlevel
  | element before tag inner trail rest ihinner ih =>
    have helement : (⟨tag, some inner⟩ : Element).events.foldlM Walk.read ⟨path, draft, kept, true⟩ =
        .ok ⟨path, draft, kept, true⟩ :=
      foldlM_element_ignored (hpath hlevel) (hbelow _ hlevel) (ihinner (hbelow _ hlevel))
    rw [Content.events_element, foldlM_append_of_foldlM (hfirst before hlevel),
      foldlM_append_of_foldlM helement]
    exact ih hlevel

/-- An element of no level of its own is passed over. -/
theorem foldlM_events_ignored {path : ElementPath} (hpath : path ≠ []) {e : Element}
    (hlevel : ElementPath.level (e.localName :: path) = .ignored) (draft : Option Draft)
    (kept : List Declaration) :
    e.events.foldlM Walk.read ⟨path, draft, kept, true⟩ = .ok ⟨path, draft, kept, true⟩ := by
  refine foldlM_element_ignored hpath hlevel ?_
  obtain ⟨tag, body⟩ := e
  cases body with
  | none => rfl
  | some content => exact foldlM_ignored content hlevel draft kept

end KeywordIndex.Libdoc
