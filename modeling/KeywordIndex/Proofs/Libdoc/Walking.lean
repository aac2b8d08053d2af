import KeywordIndex.Libdoc.Document
import KeywordIndex.Proofs.Libdoc.Levels
import KeywordIndex.Proofs.Xml.Nesting

namespace KeywordIndex.Libdoc

open Text
open Xml (Ends Event Markup Reading Tag)

/-! # Walks along a text

What one event does to a walk is said once for each kind of event (`read_opened`, `read_selfClosed`,
`read_closed`, `read_flat`). A walk that gets through a text stands in the elements that the text leaves open
(`Follows.foldlM`), and a document is accepted if the walk gets to its end below a root or meets an empty root
(`parse?_isSome_iff`).
-/

namespace Walk

variable {w w' : Walk} {tag : Tag}

/-! ## Single events -/

theorem exists_of_map {α : Type} {x : Except Xml.Fault α} {f : α → Walk}
    (h : (x.map f).mapError Stop.faulty = .ok w') : ∃ a, x = .ok a ∧ f a = w' := by
  cases x with
  | error fault => cases h
  | ok a =>
    cases h
    exact ⟨a, rfl, rfl⟩

/-- The name of the keyword under way. -/
def draftName? (w : Walk) : Option (List Char) := w.draft.map (·.name)

theorem openArgument_name {d d' : Draft} (h : d.openArgument tag = .ok d') : d'.name = d.name := by
  unfold Draft.openArgument at h
  cases hvalue : tag.value? reprAttribute with
  | error fault => simp [hvalue, Except.map] at h
  | ok value =>
    rw [hvalue] at h
    cases h
    rfl

theorem addText_name (d : Draft) (path : ElementPath) (content : List Char) :
    (d.addText path content).name = d.name := by
  unfold Draft.addText
  split
  · rfl
  · split <;> rfl

/-- A start tag goes down by one element, and begins a keyword where it stands at the place of one. -/
theorem read_opened (h : w.read (.opened tag) = .ok w') :
    w'.path = tag.localName :: w.path ∧ w'.rooted = true ∧ w'.keywords = w.keywords ∧
      if ElementPath.isKeyword (tag.localName :: w.path) then
        ∃ draft, Draft.ofTag tag = .ok draft ∧ w'.draft = some draft
      else w'.draftName? = w.draftName? := by
  obtain ⟨path, draft, kept, rooted⟩ := w
  simp only [read, openElement] at h
  split at h
  · cases h
  · split at h
    · next hkeyword =>
      obtain ⟨begun, hbegun, rfl⟩ := exists_of_map h
      exact ⟨rfl, rfl, rfl, by rw [if_pos hkeyword]; exact ⟨begun, hbegun, rfl⟩⟩
    · next hkeyword =>
      rw [if_neg hkeyword]
      cases draft with
      | none =>
        cases h
        exact ⟨rfl, rfl, rfl, rfl⟩
      | some draft =>
        simp only at h
        split at h
        · obtain ⟨begun, hargument, rfl⟩ := exists_of_map h
          exact ⟨rfl, rfl, rfl, congrArg some (openArgument_name hargument)⟩
        · cases h
          exact ⟨rfl, rfl, rfl, rfl⟩

/-- A tag that closes itself stays where it is, below the root, and may be a whole keyword. -/
theorem read_selfClosed (h : w.read (.selfClosed tag) = .ok w') :
    w'.path = w.path ∧ w'.rooted = w.rooted ∧ w'.draftName? = w.draftName? ∧
      if ElementPath.isKeyword (tag.localName :: w.path) then
        ∃ draft, Draft.ofTag tag = .ok draft ∧ w'.keywords = w.keywords ++ [draft.finish]
      else w'.keywords = w.keywords := by
  obtain ⟨path, draft, kept, rooted⟩ := w
  simp only [read, passElement] at h
  split at h
  · cases h
  · split at h
    · next hkeyword =>
      obtain ⟨begun, hbegun, rfl⟩ := exists_of_map h
      exact ⟨rfl, rfl, rfl, by rw [if_pos hkeyword]; exact ⟨begun, hbegun, rfl⟩⟩
    · next hkeyword =>
      rw [if_neg hkeyword]
      cases draft with
      | none =>
        cases h
        exact ⟨rfl, rfl, rfl, rfl⟩
      | some draft =>
        simp only at h
        split at h
        · obtain ⟨begun, hargument, rfl⟩ := exists_of_map h
          exact ⟨rfl, rfl, congrArg some (openArgument_name hargument : begun.name = _), rfl⟩
        · cases h
          exact ⟨rfl, rfl, rfl, rfl⟩

/-- An end tag goes up by one element, and finishes the keyword under way where it is that of its element. -/
theorem read_closed (w : Walk) :
    w.closeElement.path = w.path.tail ∧ w.closeElement.rooted = w.rooted ∧
      match w.draft with
      | some draft =>
        if w.path.isKeyword then
          w.closeElement.draft = none ∧ w.closeElement.keywords = w.keywords ++ [draft.finish]
        else w.closeElement.draftName? = w.draftName? ∧ w.closeElement.keywords = w.keywords
      | none => w.closeElement.draft = none ∧ w.closeElement.keywords = w.keywords := by
  obtain ⟨path, draft, kept, rooted⟩ := w
  unfold closeElement
  cases draft with
  | none => simp
  | some draft =>
    by_cases hkeyword : path.isKeyword = true
    · simp [hkeyword]
    · by_cases hargument : path.isArgument = true
      · simp [hkeyword, hargument, draftName?, Draft.closeArgument]
      · simp [hkeyword, hargument, draftName?]

/-- The event neither opens nor closes an element. -/
theorem read_flat {event : Event} (hflat : Xml.IsFlat event) (h : w.read event = .ok w') :
    w'.path = w.path ∧ w'.rooted = w.rooted ∧ w'.keywords = w.keywords ∧ w'.draftName? = w.draftName? := by
  have hadd : ∀ content, (w.addText content).draftName? = w.draftName? := by
    intro content
    obtain ⟨path, draft, kept, rooted⟩ := w
    cases draft with
    | none => rfl
    | some draft => exact congrArg some (addText_name draft path content)
  cases event with
  | opened | selfClosed | closed => exact hflat.elim
  | skipped =>
    cases h
    exact ⟨rfl, rfl, rfl, rfl⟩
  | characterData content =>
    cases h
    exact ⟨rfl, rfl, rfl, hadd content⟩
  | text content =>
    simp only [read] at h
    split at h
    · cases h
      exact ⟨rfl, rfl, rfl, rfl⟩
    · cases htext : Xml.unescape content with
      | error fault => simp [htext, Except.map, Except.mapError] at h
      | ok text =>
        rw [htext] at h
        cases h
        exact ⟨rfl, rfl, rfl, hadd text⟩

/-! ## Texts -/

/-- Reads the text before a markup, which is no event if it is empty. -/
def readText (w : Walk) (cs : List Char) : Except Stop Walk := if cs.isEmpty then .ok w else w.read (.text cs)

theorem foldlM_pushText (cs : List Char) (r : Reading) (w : Walk) :
    (r.pushText cs).events.foldlM read w = (w.readText cs).bind (r.events.foldlM read) := by
  unfold Reading.pushText readText
  split
  · rfl
  · rw [Reading.push, List.foldlM_cons]
    rfl

theorem readText_flat {cs : List Char} (h : w.readText cs = .ok w') :
    w'.path = w.path ∧ w'.rooted = w.rooted ∧ w'.keywords = w.keywords ∧ w'.draftName? = w.draftName? := by
  unfold readText at h
  split at h
  · cases h
    exact ⟨rfl, rfl, rfl, rfl⟩
  · have hflat : Xml.IsFlat (.text cs) := trivial
    exact read_flat hflat h

theorem exists_of_bind {α β : Type} {x : Except Stop α} {f : α → Except Stop β} {b : β} (h : x.bind f = .ok b) :
    ∃ a, x = .ok a ∧ f a = .ok b := by
  cases x with
  | error stop => cases h
  | ok a => exact ⟨a, rfl, h⟩

/-- A walk that gets through a text and the markup behind it gets through one after the other. -/
theorem steps_of_foldlM {names inner : List (List Char)} {before rest : List Char} {m : Markup}
    (hbefore : '<' ∉ before) (hm : m.after? names = some inner)
    (h : (Xml.readFrom names (before ++ '<' :: (m.written ++ rest))).events.foldlM read w = .ok w') :
    ∃ u v, w.readText before = .ok u ∧ u.read m.event = .ok v ∧
      (Xml.readFrom inner rest).events.foldlM read v = .ok w' := by
  rw [Xml.readFrom_written hbefore hm, foldlM_pushText] at h
  obtain ⟨u, hu, h⟩ := exists_of_bind h
  rw [Reading.push, List.foldlM_cons] at h
  obtain ⟨v, hv, h⟩ := exists_of_bind h
  exact ⟨u, v, hu, hv, h⟩

theorem last_of_foldlM {names : List (List Char)} {cs : List Char} (hcs : '<' ∉ cs)
    (h : (Xml.readFrom names cs).events.foldlM read w = .ok w') : w.readText cs = .ok w' := by
  rw [Xml.readFrom_text hcs, foldlM_pushText] at h
  obtain ⟨u, hu, h⟩ := exists_of_bind h
  cases h
  exact hu

/-! ## Where a walk stands -/

/-- The walk stands in the elements with the names, below a root that has been opened. -/
structure Follows (w : Walk) (names : List (List Char)) : Prop where
  path_eq : w.path = names.map Tag.localPart
  rooted : names ≠ [] → w.rooted = true

variable {names inner left : List (List Char)}

theorem follows_start : ({} : Walk).Follows [] := ⟨rfl, fun h => absurd rfl h⟩

theorem Follows.readText {cs : List Char} (h : w.Follows names) (hread : w.readText cs = .ok w') :
    w'.Follows names := by
  obtain ⟨hpath, hrooted, -⟩ := readText_flat hread
  exact ⟨hpath.trans h.path_eq, fun hne => hrooted.trans (h.rooted hne)⟩

theorem Follows.read {m : Markup} (h : w.Follows names) (hm : m.after? names = some inner)
    (hread : w.read m.event = .ok w') : w'.Follows inner := by
  cases m with
  | start tag =>
    obtain rfl := Option.some.inj hm
    obtain ⟨hpath, hrooted, -⟩ := read_opened hread
    exact ⟨by rw [hpath, h.path_eq]; rfl, fun _ => hrooted⟩
  | empty tag =>
    obtain rfl := Option.some.inj hm
    obtain ⟨hpath, hrooted, -⟩ := read_selfClosed hread
    exact ⟨hpath.trans h.path_eq, fun hne => hrooted.trans (h.rooted hne)⟩
  | finish content hclosed =>
    obtain rfl := (Markup.after?_eq_some_of_ended rfl).mp hm
    obtain rfl := Except.ok.inj hread
    obtain ⟨hpath, hrooted, -⟩ := read_closed w
    exact ⟨by rw [hpath, h.path_eq]; rfl, fun _ => hrooted.trans (h.rooted (by simp))⟩
  | _ =>
    obtain rfl := Option.some.inj hm
    obtain ⟨hpath, hrooted, -⟩ := read_flat (by trivial) hread
    exact ⟨hpath.trans h.path_eq, fun hne => hrooted.trans (h.rooted hne)⟩

/-- A walk that gets through a text stands in the elements that the text leaves open. -/
theorem Follows.foldlM {cs : List Char} (h : w.Follows names) (hends : Ends names cs left)
    (hrun : (Xml.readFrom names cs).events.foldlM Walk.read w = .ok w') : w'.Follows left := by
  induction hends generalizing w with
  | text hcs => exact h.readText (last_of_foldlM hcs hrun)
  | markup hbefore hm _ ih =>
    obtain ⟨u, v, hu, hv, hrun⟩ := steps_of_foldlM hbefore hm hrun
    exact ih ((h.readText hu).read hm hv) hrun

end Walk

/-! ## Accepted documents -/

/-- The walk through a document. -/
def walkThrough (document : List Char) : Except Stop Walk := (Xml.read document).events.foldlM Walk.read {}

variable {document : List Char}

/-- A document is accepted if the walk meets an empty root, or gets to the end below a root. -/
theorem parse?_eq_some_iff {outline : Outline} : parse? document = some outline ↔
    walkThrough document = .error .emptyRoot ∧ outline = { keywords := [] } ∨
      ∃ w, walkThrough document = .ok w ∧ (Xml.read document).fault = none ∧ w.rooted = true ∧
        outline = { keywords := place (LineIndex.ofText document) (markers document) w.keywords } := by
  unfold parse? outline? keywordsOf walkThrough
  cases hwalk : (Xml.read document).events.foldlM Walk.read {} with
  | error stop =>
    have hplace : ∀ marks, place (LineIndex.ofText document) marks [] = [] := fun _ => rfl
    cases stop <;> simp [Except.map, hplace, @eq_comm _ outline]
  | ok w =>
    cases hfault : (Xml.read document).fault with
    | some fault => simp [Except.map]
    | none => cases hrooted : w.rooted <;> simp [hrooted, Except.map, @eq_comm _ outline]

theorem parse?_isSome_iff : (parse? document).isSome = true ↔
    walkThrough document = .error .emptyRoot ∨
      ∃ w, walkThrough document = .ok w ∧ (Xml.read document).fault = none ∧ w.rooted = true := by
  rw [Option.isSome_iff_exists]
  simp only [parse?_eq_some_iff]
  constructor
  · rintro ⟨outline, ⟨hstop, -⟩ | ⟨w, hwalk, hfault, hrooted, -⟩⟩
    · exact Or.inl hstop
    · exact Or.inr ⟨w, hwalk, hfault, hrooted⟩
  · rintro (hstop | ⟨w, hwalk, hfault, hrooted⟩)
    · exact ⟨_, Or.inl ⟨hstop, rfl⟩⟩
    · exact ⟨_, Or.inr ⟨w, hwalk, hfault, hrooted, rfl⟩⟩

end KeywordIndex.Libdoc
