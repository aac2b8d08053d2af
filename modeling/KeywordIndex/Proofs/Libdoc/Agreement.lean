import KeywordIndex.Libdoc.Document
import KeywordIndex.Proofs.Libdoc.Levels
import KeywordIndex.Proofs.Text.Cutting

namespace KeywordIndex.Libdoc

open Text
open Xml (Content Element Piece)

/-! # Keywords of a document as a tree

The keywords of a library document can be told from its tree of elements: they are the `keywordElements` of
the root, and each declares what its children say (`declaration`). The walk through the events of the document
gives the same keywords in the same order (`outline_written`).
-/

/-! ## Declarations -/

/-- The argument elements of a keyword. -/
def argumentElements (e : Element) : List Element :=
  (e.below argumentsName).flatMap (·.below argumentName)

/-- The texts of some arguments that are not blank. -/
def argumentTexts (arguments : List Element) : List (List Char) :=
  (arguments.map fun a => trim a.directText).filter (· ≠ [])

/-- The arguments as they are written out in attributes. -/
def argumentRepresentations (arguments : List Element) : List (List Char) :=
  arguments.filterMap (·.attribute? reprAttribute)

/-- What a keyword element declares. -/
def declaration (e : Element) : Declaration where
  name := String.ofList (trim ((e.attribute? nameAttribute).getD []))
  documentation := String.ofList (trim ((e.below documentationName).flatMap (·.directText)))
  arguments :=
    let texts := argumentTexts (argumentElements e)
    let written := if texts = [] then argumentRepresentations (argumentElements e) else texts
    written.map Argument.ofText
  position := none

/-- The keyword elements of a root: its children, and the children of those that hold keywords. -/
def keywordElements (root : Element) : List Element :=
  root.children.flatMap fun e =>
    if e.localName = keywordName then [e]
    else if e.localName = keywordsName then e.below keywordName
    else []

/-! ## Growing drafts -/

namespace Draft

/-- The draft after a text was added to its documentation, and arguments to its arguments. -/
def grow (d : Draft) (documentation : List Char) (arguments : List Element) : Draft :=
  { d with
    documentation := d.documentation ++ documentation
    texts := d.texts ++ argumentTexts arguments
    representations := d.representations ++ argumentRepresentations arguments }

variable {d : Draft}

theorem grow_nil : d.grow [] [] = d := by
  simp [grow, argumentTexts, argumentRepresentations]

theorem grow_grow (a b : List Char) (xs ys : List Element) :
    (d.grow a xs).grow b ys = d.grow (a ++ b) (xs ++ ys) := by
  simp [grow, argumentTexts, argumentRepresentations]

theorem finish_grow (e : Element) :
    ({ name := (e.attribute? nameAttribute).getD [] : Draft }.grow
      ((e.below documentationName).flatMap (·.directText)) (argumentElements e)).finish =
    declaration e := by
  simp [grow, finish, declaration]

end Draft

/-! ## Pieces -/

/-- What a piece says if only children say something. -/
def saidBy {α : Type} (say : Element → List α) : Piece → List α
  | .text _ => []
  | .child e => say e

theorem flatMap_saidBy {α : Type} (say : Element → List α) (e : Element) :
    e.pieces.flatMap (saidBy say) = e.children.flatMap say := by
  rw [Element.children]
  induction e.pieces with
  | nil => rfl
  | cons piece pieces ih => cases piece <;> simp [saidBy, Piece.child?, List.filterMap_cons, ih]

theorem flatMap_ite {α : Type} (e : Element) (name : List Char) (say : Element → List α) :
    (e.children.flatMap fun c => if c.localName = name then say c else []) =
      (e.below name).flatMap say := by
  rw [Element.below]
  induction e.children with
  | nil => rfl
  | cons c children ih => by_cases h : c.localName = name <;> simp [h, ih]

/-! ## Inside keywords -/

section Inside

variable {path : ElementPath} {e : Element} {d : Draft} {kept : List Declaration}

theorem ne_nil_of_level {level : Level} (hlevel : path.level = level) (h : level ≠ .outside) :
    path ≠ [] := fun hnil => h (hlevel ▸ ElementPath.level_eq_outside_iff.mpr hnil)

/-- A text counts in documentation and in arguments only. -/
theorem addText_of_level (hdocumentation : path.level ≠ .documentation)
    (hargument : path.level ≠ .argument) (content : List Char) :
    Walk.addText ⟨path, some d, kept, true⟩ content = ⟨path, some d, kept, true⟩ := by
  rw [Ne, ← ElementPath.isDocumentation_iff, Bool.not_eq_true] at hdocumentation
  rw [Ne, ← ElementPath.isArgument_iff, Bool.not_eq_true] at hargument
  simp [Walk.addText, Draft.addText, hdocumentation, hargument]

/-- What a draft grows by below an element whose text does not count is told by its children. -/
theorem foldlM_growing (e : Element) (kept : List Declaration)
    (hdocumentation : path.level ≠ .documentation) (hargument : path.level ≠ .argument)
    (hd : d.argument = none) (documentation : Element → List Char) (arguments : Element → List Element)
    (hchild : ∀ (d : Draft) (c : Element), d.argument = none →
      c.events.foldlM Walk.read ⟨path, some d, kept, true⟩ =
        .ok ⟨path, some (d.grow (documentation c) (arguments c)), kept, true⟩) :
    e.innerEvents.foldlM Walk.read ⟨path, some d, kept, true⟩ = .ok ⟨path,
      some (d.grow (e.children.flatMap documentation) (e.children.flatMap arguments)), kept, true⟩ := by
  let place (grown : List Char × List Element) : Walk :=
    ⟨path, some (d.grow grown.1 grown.2), kept, true⟩
  let step (grown : List Char × List Element) (piece : Piece) : List Char × List Element :=
    (grown.1 ++ saidBy documentation piece, grown.2 ++ saidBy arguments piece)
  have hwalk := foldlM_innerEvents place step (fun grown content => ?_) (fun grown c => ?_) e ([], [])
  · have hfold : ∀ (pieces : List Piece) (grown : List Char × List Element),
        pieces.foldl step grown = (grown.1 ++ pieces.flatMap (saidBy documentation),
          grown.2 ++ pieces.flatMap (saidBy arguments)) := by
      intro pieces
      induction pieces with
      | nil => simp
      | cons piece pieces ih => simp [ih, step]
    rw [hfold, flatMap_saidBy, flatMap_saidBy] at hwalk
    simpa [place, Draft.grow_nil] using hwalk
  · rw [addText_of_level hdocumentation hargument]
    simp [place, step, saidBy]
  · refine (hchild (d.grow grown.1 grown.2) c hd).trans ?_
    rw [Draft.grow_grow]
    rfl

/-- The texts of an element are gathered where they count, and its children are passed over. -/
theorem foldlM_gathering (e : Element) (kept : List Declaration) (text : List Char)
    (place : List Char → Draft) (hpath : path ≠ [])
    (hignored : ∀ name, ElementPath.level (name :: path) = .ignored)
    (htext : ∀ text content, (place text).addText path content = place (text ++ content)) :
    e.innerEvents.foldlM Walk.read ⟨path, some (place text), kept, true⟩ =
      .ok ⟨path, some (place (text ++ e.directText)), kept, true⟩ := by
  let step (text : List Char) (piece : Piece) : List Char := text ++ piece.ownText
  have hfold : ∀ (pieces : List Piece) (text : List Char),
      pieces.foldl step text = text ++ pieces.flatMap Piece.ownText := by
    intro pieces
    induction pieces with
    | nil => simp
    | cons piece pieces ih => simp [ih, step]
  have hwalk := foldlM_innerEvents (fun text => ⟨path, some (place text), kept, true⟩) step
    (fun text content => ?_) (fun text c => ?_) e text
  · rwa [hfold] at hwalk
  · simp [Walk.addText, htext, step, Piece.ownText]
  · rw [foldlM_events_ignored hpath (hignored c.localName)]
    simp [step, Piece.ownText]

theorem foldlM_documentation (hlevel : path.level = .keyword) (hname : e.localName = documentationName) :
    e.events.foldlM Walk.read ⟨path, some d, kept, true⟩ =
      .ok ⟨path, some (d.grow e.directText []), kept, true⟩ := by
  have hbelow : ElementPath.level (e.localName :: path) = .documentation := by
    rw [ElementPath.level, hlevel, hname]
    decide
  refine foldlM_element (ne_nil_of_level hlevel (by decide)) (by rw [hbelow]; decide)
    (by rw [hbelow]; decide) ?_
  have hgathered := foldlM_gathering e kept [] (fun text => d.grow text [])
    (List.cons_ne_nil e.localName path) (fun name => by rw [ElementPath.level, hbelow]; rfl) ?_
  · simpa [Draft.grow_nil] using hgathered
  · intro text content
    rw [Draft.addText, if_pos (ElementPath.isDocumentation_iff.mpr hbelow)]
    simp [Draft.grow]

theorem foldlM_argument (hlevel : path.level = .arguments) (hname : e.localName = argumentName)
    (hd : d.argument = none) : e.events.foldlM Walk.read ⟨path, some d, kept, true⟩ =
      .ok ⟨path, some (d.grow [] [e]), kept, true⟩ := by
  have hbelow : ElementPath.level (e.localName :: path) = .argument := by
    rw [ElementPath.level, hlevel, hname]
    decide
  have hdocumentation : ElementPath.isDocumentation (e.localName :: path) = false := by
    rw [← Bool.not_eq_true, ElementPath.isDocumentation_iff, hbelow]
    decide
  let place (text : List Char) : Draft := { d with
    representations := d.representations ++ (e.attribute? reprAttribute).toList
    argument := some text }
  have hclosed : (place e.directText).closeArgument = d.grow [] [e] := by
    by_cases hblank : trim e.directText = [] <;> cases hwritten : e.attribute? reprAttribute <;>
      simp [place, Draft.closeArgument, Draft.grow, argumentTexts, argumentRepresentations, hblank,
        hwritten, hd]
  rw [← hclosed]
  refine foldlM_element_argument (ne_nil_of_level hlevel (by decide)) hbelow ?_
  refine foldlM_gathering e kept [] place (List.cons_ne_nil e.localName path)
    (fun name => by rw [ElementPath.level, hbelow]; rfl) fun text content => ?_
  rw [Draft.addText, hdocumentation, if_neg Bool.false_ne_true,
    if_pos (ElementPath.isArgument_iff.mpr hbelow)]
  rfl

theorem foldlM_arguments (hlevel : path.level = .keyword) (hname : e.localName = argumentsName)
    (hd : d.argument = none) : e.events.foldlM Walk.read ⟨path, some d, kept, true⟩ =
      .ok ⟨path, some (d.grow [] (e.below argumentName)), kept, true⟩ := by
  have hbelow : ElementPath.level (e.localName :: path) = .arguments := by
    rw [ElementPath.level, hlevel, hname]
    decide
  refine foldlM_element (ne_nil_of_level hlevel (by decide)) (by rw [hbelow]; decide)
    (by rw [hbelow]; decide) ?_
  have hgrowing := foldlM_growing e kept (by rw [hbelow]; decide) (by rw [hbelow]; decide)
    hd (fun _ => []) (fun c => if c.localName = argumentName then [c] else []) fun d c hd => ?_
  · rwa [flatMap_ite, List.flatMap_singleton', List.flatMap_eq_nil_iff.mpr fun _ _ => rfl] at hgrowing
  · by_cases hargument : c.localName = argumentName
    · rw [if_pos hargument]
      exact foldlM_argument hbelow hargument hd
    · rw [if_neg hargument, Draft.grow_nil]
      refine foldlM_events_ignored (List.cons_ne_nil e.localName path) ?_ (some d) kept
      rw [ElementPath.level, hbelow, Level.below, if_neg hargument]

end Inside

/-! ## Keywords -/

section Keywords

variable {path : ElementPath} {e : Element} {kept : List Declaration}

theorem foldlM_keyword (hlevel : path.level = .root ∨ path.level = .keywords)
    (hname : e.localName = keywordName) :
    e.events.foldlM Walk.read ⟨path, none, kept, true⟩ =
      .ok ⟨path, none, kept ++ [declaration e], true⟩ := by
  have hpath : path ≠ [] := by
    rcases hlevel with hlevel | hlevel <;> exact ne_nil_of_level hlevel (by decide)
  have hbelow : ElementPath.level (e.localName :: path) = .keyword := by
    rw [ElementPath.level, hname]
    rcases hlevel with hlevel | hlevel <;>
    · rw [hlevel]
      decide
  have hne : argumentsName ≠ documentationName := by decide
  have hgrowing := foldlM_growing e kept (by rw [hbelow]; decide) (by rw [hbelow]; decide)
    (d := { name := (e.attribute? nameAttribute).getD [] }) rfl
    (fun c => if c.localName = documentationName then c.directText else [])
    (fun c => if c.localName = argumentsName then c.below argumentName else []) fun d c hd => ?_
  · rw [flatMap_ite, flatMap_ite] at hgrowing
    rw [← Draft.finish_grow]
    exact foldlM_element_keyword hpath hbelow hgrowing
  · by_cases hdocumentation : c.localName = documentationName
    · rw [if_pos hdocumentation, if_neg (hdocumentation ▸ hne.symm)]
      exact foldlM_documentation hbelow hdocumentation
    · rw [if_neg hdocumentation]
      by_cases harguments : c.localName = argumentsName
      · rw [if_pos harguments]
        exact foldlM_arguments hbelow harguments hd
      · rw [if_neg harguments, Draft.grow_nil]
        refine foldlM_events_ignored (List.cons_ne_nil e.localName path) ?_ (some d) kept
        rw [ElementPath.level, hbelow, Level.below, if_neg hdocumentation, if_neg harguments]

/-- Outside keywords the children of an element add their keywords in order. -/
theorem foldlM_adding (path : ElementPath) (e : Element) (kept : List Declaration)
    (say : Element → List Declaration)
    (hchild : ∀ (kept : List Declaration) (c : Element),
      c.events.foldlM Walk.read ⟨path, none, kept, true⟩ = .ok ⟨path, none, kept ++ say c, true⟩) :
    e.innerEvents.foldlM Walk.read ⟨path, none, kept, true⟩ =
      .ok ⟨path, none, kept ++ e.children.flatMap say, true⟩ := by
  let step (kept : List Declaration) (piece : Piece) : List Declaration := kept ++ saidBy say piece
  have hfold : ∀ (pieces : List Piece) (kept : List Declaration),
      pieces.foldl step kept = kept ++ pieces.flatMap (saidBy say) := by
    intro pieces
    induction pieces with
    | nil => simp
    | cons piece pieces ih => simp [ih, step]
  have hwalk := foldlM_innerEvents (fun kept => ⟨path, none, kept, true⟩) step
    (fun kept content => ?_) (fun kept c => hchild kept c) e kept
  · rwa [hfold, flatMap_saidBy] at hwalk
  · simp [Walk.addText, step, saidBy]

theorem foldlM_keywords (hlevel : path.level = .root) (hname : e.localName = keywordsName) :
    e.events.foldlM Walk.read ⟨path, none, kept, true⟩ =
      .ok ⟨path, none, kept ++ (e.below keywordName).map declaration, true⟩ := by
  have hbelow : ElementPath.level (e.localName :: path) = .keywords := by
    rw [ElementPath.level, hlevel, hname]
    decide
  refine foldlM_element (ne_nil_of_level hlevel (by decide)) (by rw [hbelow]; decide)
    (by rw [hbelow]; decide) ?_
  have hadding := foldlM_adding (e.localName :: path) e kept
    (fun c => if c.localName = keywordName then [declaration c] else []) fun kept c => ?_
  · rwa [flatMap_ite, ← List.map_eq_flatMap] at hadding
  · by_cases hkeyword : c.localName = keywordName
    · rw [if_pos hkeyword]
      exact foldlM_keyword (Or.inr hbelow) hkeyword
    · rw [if_neg hkeyword, List.append_nil]
      refine foldlM_events_ignored (List.cons_ne_nil e.localName path) ?_ none kept
      rw [ElementPath.level, hbelow, Level.below, if_neg hkeyword]

/-- The walk through the content of a root adds the keywords of its tree. -/
theorem foldlM_root (e : Element) (kept : List Declaration) (hlevel : path.level = .root) :
    e.innerEvents.foldlM Walk.read ⟨path, none, kept, true⟩ =
      .ok ⟨path, none, kept ++ (keywordElements e).map declaration, true⟩ := by
  rw [keywordElements, List.map_flatMap]
  refine foldlM_adding path e kept _ fun kept c => ?_
  by_cases hkeyword : c.localName = keywordName
  · rw [if_pos hkeyword]
    exact foldlM_keyword (Or.inl hlevel) hkeyword
  · rw [if_neg hkeyword]
    by_cases hkeywords : c.localName = keywordsName
    · rw [if_pos hkeywords]
      exact foldlM_keywords hlevel hkeywords
    · rw [if_neg hkeywords, List.map_nil, List.append_nil]
      refine foldlM_events_ignored (ne_nil_of_level hlevel (by decide)) ?_ none kept
      rw [ElementPath.level, hlevel, Level.below, if_neg hkeyword, if_neg hkeywords]

end Keywords

/-! ## Documents -/

theorem foldlM_flat {events : List Xml.Event} (h : ∀ event ∈ events, Xml.IsFlat event) {w : Walk}
    (hw : w.draft = none) : events.foldlM Walk.read w = .ok w := by
  induction events with
  | nil => rfl
  | cons event events ih =>
    obtain ⟨path, draft, kept, rooted⟩ := w
    obtain rfl : draft = none := hw
    rw [List.forall_mem_cons] at h
    have hread : Walk.read ⟨path, none, kept, rooted⟩ event = .ok ⟨path, none, kept, rooted⟩ := by
      cases event with
      | text | characterData | skipped => rfl
      | opened | selfClosed | closed => exact absurd h.1 id
    rw [foldlM_cons_of_read hread]
    exact ih h.2

/-- The keywords of a document are those of its tree. -/
theorem keywordsOf_read (d : Xml.Document) (h : d.root.localName = rootName) :
    keywordsOf (Xml.read d.written) = .ok (some ((keywordElements d.root).map declaration)) := by
  obtain ⟨before, after, hevents, hbefore, hafter⟩ := Content.exists_events d.single
  have hstart : before.foldlM Walk.read {} = .ok {} := foldlM_flat hbefore rfl
  rw [Xml.read_written, hevents, List.append_assoc]
  unfold keywordsOf
  rw [foldlM_append_of_foldlM hstart]
  generalize d.root = root at h
  obtain ⟨tag, body⟩ := root
  have hname : tag.tag.localName = rootName := tag.localName_tag.trans h
  cases body with
  | none =>
    -- a root that closes itself ends the walk
    have hread : Walk.read {} (.selfClosed tag.tag) = .error .emptyRoot := by simp [Walk.read, hname]
    have hwalk : ((⟨tag, none⟩ : Element).events ++ after).foldlM Walk.read {} = .error .emptyRoot := by
      rw [Element.events, List.singleton_append, List.foldlM_cons, hread]
      rfl
    simp only [hwalk]
    rfl
  | some content =>
    have hopened : Walk.read {} (.opened tag.tag) = .ok ⟨[rootName], none, [], true⟩ := by
      have hkeyword : ElementPath.isKeyword [rootName] = false := by decide
      simp [Walk.read, Walk.openElement, hname, hkeyword, Except.mapError]
    have hcontent : content.events.foldlM Walk.read ⟨[rootName], none, [], true⟩ =
        .ok ⟨[rootName], none, (keywordElements ⟨tag, some content⟩).map declaration, true⟩ :=
      foldlM_root ⟨tag, some content⟩ [] (ElementPath.level_eq_root_iff.mpr rfl)
    have hclosed : Walk.read ⟨[rootName], none, (keywordElements ⟨tag, some content⟩).map declaration, true⟩
        .closed = .ok ⟨[], none, (keywordElements ⟨tag, some content⟩).map declaration, true⟩ := rfl
    have hwalk : ((⟨tag, some content⟩ : Element).events ++ after).foldlM Walk.read {} =
        .ok ⟨[], none, (keywordElements ⟨tag, some content⟩).map declaration, true⟩ := by
      rw [Element.events, List.cons_append, foldlM_cons_of_read hopened, List.append_assoc,
        foldlM_append_of_foldlM hcontent, List.singleton_append, foldlM_cons_of_read hclosed]
      exact foldlM_flat hafter rfl
    simp only [hwalk]
    rfl

/-- A declaration without its place. -/
def unplaced (k : Declaration) : Declaration := { k with position := none }

theorem map_unplaced_place (index : LineIndex) (marks : List Marker) (keywords : List Declaration) :
    (place index marks keywords).map unplaced = keywords.map unplaced := by
  induction keywords with
  | nil => rfl
  | cons k keywords ih =>
    rw [place, List.map_cons, List.map_cons, ih]
    congr 1
    split <;> rfl

/-- A document is read into an outline with the keywords of its tree, in their order. -/
theorem outline_written (d : Xml.Document) (h : d.root.localName = rootName) :
    ∃ keywords, outline? d.written = .ok (some { keywords }) ∧
      keywords.map unplaced = (keywordElements d.root).map declaration := by
  refine ⟨_, by rw [outline?, keywordsOf_read d h]; rfl, ?_⟩
  rw [map_unplaced_place, List.map_map]
  rfl

end KeywordIndex.Libdoc
