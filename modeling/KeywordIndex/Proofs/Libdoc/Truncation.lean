import KeywordIndex.Proofs.Libdoc.Walking

namespace KeywordIndex.Libdoc

open Text
open Xml (Ends Event LeavesOpen Markup Nested TagText endTags)

/-! # Documents that end too early

A document whose elements are not nested is accepted in two cases only: some elements are left open at its
end, or it goes on behind an empty root, where it is not read any more (`accepted_unless_nested_iff`). In the
first case it makes no difference whether the missing end tags are there.
-/

namespace Walk

variable {w : Walk} {event : Event} {names : List (List Char)}

/-! ## Empty roots -/

theorem read_eq_emptyRoot (h : w.read event = .error .emptyRoot) :
    w.path = [] ∧ ∃ tag, event = .selfClosed tag ∧ tag.localName = rootName := by
  have hfaulty : ∀ {α : Type} {x : Except Xml.Fault α}, x.mapError Stop.faulty ≠ .error .emptyRoot := by
    intro α x
    cases x <;> simp [Except.mapError]
  cases event with
  | opened tag =>
    simp only [read] at h
    split at h
    · cases h
    · exact absurd h hfaulty
  | selfClosed tag =>
    simp only [read] at h
    split at h
    · next hpath =>
      refine ⟨List.isEmpty_iff.mp hpath, tag, rfl, ?_⟩
      split at h
      · next hname => exact beq_iff_eq.mp hname
      · cases h
    · exact absurd h hfaulty
  | text content =>
    simp only [read] at h
    split at h
    · cases h
    · cases htext : Xml.unescape content <;> simp [htext, Except.mapError, Except.map] at h
  | _ => cases h

theorem cases_of_bind {α β : Type} {x : Except Stop α} {f : α → Except Stop β} {stop : Stop}
    (h : x.bind f = .error stop) : x = .error stop ∨ ∃ a, x = .ok a ∧ f a = .error stop := by
  cases x with
  | error found => exact Or.inl (by cases h; rfl)
  | ok a => exact Or.inr ⟨a, rfl, h⟩

theorem readText_ne_emptyRoot (cs : List Char) : w.readText cs ≠ .error .emptyRoot := by
  intro h
  unfold readText at h
  split at h
  · cases h
  · obtain ⟨-, tag, htag, -⟩ := read_eq_emptyRoot h
    cases htag

end Walk

/-- A text that ends in an empty root element, outside of all others. -/
def EndsInEmptyRoot (front : List Char) : Prop :=
  ∃ first tag, ∃ m : Markup, front = first ++ '<' :: m.written ∧ Nested first ∧ m.event = .selfClosed tag ∧
    tag.localName = rootName

/-- A walk that stops at an empty root has come to one outside of all elements. -/
theorem exists_emptyRoot {w : Walk} {names : List (List Char)} {cs : List Char} (hw : w.Follows names)
    (h : (Xml.readFrom names cs).events.foldlM Walk.read w = .error .emptyRoot) :
    ∃ first tag rest, ∃ m : Markup, cs = first ++ '<' :: (m.written ++ rest) ∧ Ends names first [] ∧
      m.event = .selfClosed tag ∧ tag.localName = rootName := by
  induction names, cs using Xml.reading_induction generalizing w with
  | text names cs hcs =>
    rw [Xml.readFrom_text hcs, Walk.foldlM_pushText] at h
    rcases Walk.cases_of_bind h with htext | ⟨u, -, hend⟩
    · exact absurd htext (Walk.readText_ne_emptyRoot cs)
    · cases hend
  | fault names before markup fault hbefore hread =>
    rw [Xml.readFrom_fault hbefore hread, Walk.foldlM_pushText] at h
    rcases Walk.cases_of_bind h with htext | ⟨u, -, hend⟩
    · exact absurd htext (Walk.readText_ne_emptyRoot before)
    · cases hend
  | step names before m inner rest hbefore hm ih =>
    rw [Xml.readFrom_written hbefore hm, Walk.foldlM_pushText] at h
    rcases Walk.cases_of_bind h with htext | ⟨u, hu, h⟩
    · exact absurd htext (Walk.readText_ne_emptyRoot before)
    · have hstands := hw.readText hu
      rw [Xml.Reading.push, List.foldlM_cons] at h
      rcases Walk.cases_of_bind h with hevent | ⟨v, hv, h⟩
      · -- the markup is the empty root
        obtain ⟨hpath, tag, htag, hname⟩ := Walk.read_eq_emptyRoot hevent
        have hnames : names = [] := List.map_eq_nil_iff.mp (hstands.path_eq.symm.trans hpath)
        subst hnames
        exact ⟨before, tag, rest, m, rfl, .text hbefore, htag, hname⟩
      · obtain ⟨first, tag, rest, m', rfl, hfirst, htag, hname⟩ := ih (hstands.read hm hv) h
        exact ⟨before ++ '<' :: (m.written ++ first), tag, rest, m', by simp, .markup hbefore hm hfirst, htag,
          hname⟩

variable {document : List Char} {names : List (List Char)}

theorem exists_front_of_emptyRoot (h : walkThrough document = .error .emptyRoot) :
    ∃ front rest, document = front ++ rest ∧ EndsInEmptyRoot front := by
  rw [walkThrough, Xml.read_eq] at h
  obtain ⟨first, tag, rest, m, htext, hfirst, htag, hname⟩ := exists_emptyRoot Walk.follows_start h
  have hnested : Nested first := Xml.nested_iff.mpr (Xml.leavesOpen_iff.mpr hfirst)
  rcases Xml.unmarked_cases document with hdocument | hdocument
  · exact ⟨first ++ '<' :: m.written, rest, by rw [hdocument, htext]; simp, first, tag, m, rfl, hnested, htag,
      hname⟩
  · have hmarked : Nested ('\uFEFF' :: first) :=
      Xml.nested_iff.mpr (Xml.leavesOpen_iff.mpr ((Xml.Ends.cons_iff (by decide)).mpr hfirst))
    exact ⟨'\uFEFF' :: first ++ '<' :: m.written, rest, by rw [hdocument, htext]; simp, _, tag, m, rfl, hmarked,
      htag, hname⟩

/-! ## What follows a document -/

theorem walkThrough_append (h : LeavesOpen names document) (rest : List Char) :
    walkThrough (document ++ '<' :: rest) =
      (walkThrough document).bind ((Xml.readFrom names ('<' :: rest)).events.foldlM Walk.read) := by
  rw [walkThrough, h.read_append, Xml.Reading.prepend, List.foldlM_append]
  rfl

/-- A walk that gets through a document stands in the elements that it leaves open. -/
theorem follows_of_walkThrough (h : LeavesOpen names document) {w : Walk}
    (hwalk : walkThrough document = .ok w) :
    w.Follows names := by
  rw [walkThrough, Xml.read_eq] at hwalk
  exact Walk.follows_start.foldlM ((Xml.ends_unmarked_iff document).mpr (Xml.leavesOpen_iff.mp h)) hwalk

/-- Where the walk stops tells what is read. -/
theorem parse?_eq_of_stop {other : List Char} {stop : Stop} (h : walkThrough document = .error stop)
    (hother : walkThrough other = .error stop) : parse? document = parse? other := by
  rw [walkThrough] at h hother
  cases stop <;> simp [parse?, outline?, keywordsOf, h, hother, Except.map, place]

/-- A walk that gets to an empty root stops there. -/
theorem walkThrough_emptyRoot {first : List Char} {tag : Xml.Tag} {m : Markup} (hfirst : Nested first)
    (htag : m.event = .selfClosed tag) (hname : tag.localName = rootName) (rest : List Char) :
    walkThrough (first ++ '<' :: (m.written ++ rest)) =
      (walkThrough first).bind fun _ => .error .emptyRoot := by
  have hafter : m.after? [] = some [] := by
    cases m <;> simp_all [Markup.event, Markup.after?]
  have hread := Xml.readFrom_written (List.not_mem_nil : '<' ∉ []) hafter rest
  rw [List.nil_append] at hread
  rw [walkThrough_append (.nested hfirst), hread]
  cases hwalk : walkThrough first with
  | error stop => rfl
  | ok w =>
    have hpath : w.path = [] := (follows_of_walkThrough (.nested hfirst) hwalk).path_eq
    simp [Except.bind, Xml.Reading.pushText, Xml.Reading.push, htag, Walk.read, hpath, hname, List.foldlM_cons,
      bind]

/-- Nothing is read behind an empty root. -/
theorem parse?_behind_emptyRoot {front : List Char} (h : EndsInEmptyRoot front) (rest : List Char) :
    parse? (front ++ rest) = parse? front := by
  obtain ⟨first, tag, m, rfl, hfirst, htag, hname⟩ := h
  have hwhole := walkThrough_emptyRoot hfirst htag hname rest
  have hfront := walkThrough_emptyRoot hfirst htag hname []
  rw [List.append_nil] at hfront
  rw [List.append_assoc, List.cons_append]
  cases hwalk : walkThrough first with
  | error stop =>
    rw [hwalk] at hwhole hfront
    exact parse?_eq_of_stop hwhole hfront
  | ok w =>
    rw [hwalk] at hwhole hfront
    exact parse?_eq_of_stop hwhole hfront

/-! ## Elements left open -/

/-- What is accepted is accepted when it is cut off before some markup inside of an element. -/
theorem accepted_of_append (h : LeavesOpen names document) (hopen : names ≠ []) {rest : List Char}
    (haccepted : (parse? (document ++ '<' :: rest)).isSome = true) : (parse? document).isSome = true := by
  rw [parse?_isSome_iff, walkThrough_append h] at haccepted
  rw [parse?_isSome_iff]
  cases hwalk : walkThrough document with
  | error stop =>
    rw [hwalk] at haccepted
    rcases haccepted with hstop | ⟨w, hw, -⟩
    · exact Or.inl (by cases hstop; rfl)
    · cases hw
  | ok w =>
    exact Or.inr ⟨w, rfl, Xml.fault_eq_none_iff.mpr ⟨names, h⟩, (follows_of_walkThrough h hwalk).rooted hopen⟩

/-- End tags are read without a fault, whatever they close. -/
theorem foldlM_closed (count : Nat) (w : Walk) :
    ∃ w', (List.replicate count Event.closed).foldlM Walk.read w = .ok w' ∧ w'.rooted = w.rooted := by
  induction count generalizing w with
  | zero => exact ⟨w, rfl, rfl⟩
  | succ count ih =>
    obtain ⟨w', hrun, hrooted⟩ := ih w.closeElement
    exact ⟨w', hrun, hrooted.trans (Walk.read_closed w).2.1⟩

/-- Missing end tags make no difference. -/
theorem accepted_endTags_iff (h : LeavesOpen names document) (htexts : ∀ name ∈ names, TagText name) :
    (parse? (document ++ endTags names)).isSome = true ↔ (parse? document).isSome = true := by
  cases names with
  | nil => rw [endTags, List.flatMap_nil, List.append_nil]
  | cons name outer =>
    obtain ⟨more, hmore⟩ : ∃ more, endTags (name :: outer) = '<' :: more := ⟨_, rfl⟩
    have hread := Xml.readFrom_endTags h.endName_eq htexts
    have hfault : (Xml.read (document ++ endTags (name :: outer))).fault = none :=
      Xml.fault_eq_none_iff.mpr ⟨[], .nested (h.nested_endTags htexts)⟩
    constructor
    · intro haccepted
      rw [hmore] at haccepted
      exact accepted_of_append h (by simp) haccepted
    · rw [parse?_isSome_iff, parse?_isSome_iff]
      have hwhole : walkThrough (document ++ endTags (name :: outer)) = (walkThrough document).bind
          ((List.replicate (name :: outer).length Event.closed).foldlM Walk.read) := by
        rw [hmore] at hread ⊢
        rw [walkThrough_append h, hread]
      rw [hwhole]
      rintro (hstop | ⟨w, hwalk, -, hrooted⟩)
      · exact Or.inl (by rw [hstop]; rfl)
      · obtain ⟨w', hrun, hsame⟩ := foldlM_closed (name :: outer).length w
        exact Or.inr ⟨w', by rw [hwalk]; exact hrun, hfault, hsame.trans hrooted⟩

/-- An accepted document may go on with a comment, unless it has an empty root. -/
theorem accepted_comment {w : Walk} (h : LeavesOpen names document) (hwalk : walkThrough document = .ok w)
    (hrooted : w.rooted = true) :
    ∃ more, (parse? (document ++ '<' :: more)).isSome = true := by
  let comment : Markup := .comment [] (by decide)
  have hcomment : comment.after? names = some names := rfl
  have hread := Xml.readFrom_written (List.not_mem_nil : '<' ∉ []) hcomment []
  rw [List.nil_append, List.append_nil, Xml.readFrom_text List.not_mem_nil] at hread
  refine ⟨comment.written, parse?_isSome_iff.mpr (Or.inr ⟨w, ?_, ?_, hrooted⟩)⟩
  · rw [walkThrough_append h, hread, hwalk]
    rfl
  · rw [h.read_append, hread]
    rfl

/-! ## Accepted documents -/

/-- A document that is not nested is accepted in two cases. In the first it would be accepted if it went on
with more markup: it is cut off inside of some elements, and that the end tags of these are missing makes no
difference. In the second it is behind an accepted document with an empty root that more follows. -/
theorem accepted_unless_nested_iff (document : List Char) (h : ¬ Nested document) :
    ((parse? document).isSome = true ↔
      (∃ names more, LeavesOpen names document ∧ (parse? (document ++ '<' :: more)).isSome = true) ∨
        ∃ front rest, document = front ++ rest ∧ EndsInEmptyRoot front ∧ (parse? front).isSome = true) ∧
      ∀ names, LeavesOpen names document → (∀ name ∈ names, TagText name) →
        Nested (document ++ endTags names) ∧
          ((parse? (document ++ endTags names)).isSome = true ↔ (parse? document).isSome = true) := by
  have hopen : ∀ names, LeavesOpen names document → names ≠ [] := by
    rintro names hnames rfl
    exact h (Xml.nested_iff.mpr hnames)
  refine ⟨⟨fun haccepted => ?_, ?_⟩, fun names hnames htexts =>
    ⟨hnames.nested_endTags htexts, accepted_endTags_iff hnames htexts⟩⟩
  · rcases parse?_isSome_iff.mp haccepted with hstop | ⟨w, hwalk, hfault, hrooted⟩
    · obtain ⟨front, rest, rfl, hfront⟩ := exists_front_of_emptyRoot hstop
      exact Or.inr ⟨front, rest, rfl, hfront, by rwa [parse?_behind_emptyRoot hfront] at haccepted⟩
    · obtain ⟨names, hnames⟩ := Xml.fault_eq_none_iff.mp hfault
      obtain ⟨more, hmore⟩ := accepted_comment hnames hwalk hrooted
      exact Or.inl ⟨names, more, hnames, hmore⟩
  · rintro (⟨names, more, hnames, haccepted⟩ | ⟨front, rest, rfl, hfront, haccepted⟩)
    · exact accepted_of_append hnames (hopen names hnames) haccepted
    · rwa [parse?_behind_emptyRoot hfront]

/-- A library document that is cut off behind its first keyword. -/
def truncated : List Char := "<keywordspec name=\"L\"><kw name=\"a\"></kw>".toList

/-- It is accepted, as it would be with the end tag of its root. -/
theorem truncated_accepted :
    ¬ Nested truncated ∧ LeavesOpen [rootName] truncated ∧ endTags [rootName] = "</keywordspec>".toList ∧
      (parse? truncated).isSome = true ∧ (parse? (truncated ++ endTags [rootName])).isSome = true := by
  have hnested : ¬ Nested truncated := by decide +kernel
  have hopen : LeavesOpen [rootName] truncated := by decide +kernel
  obtain ⟨hiff, hclosed⟩ := accepted_unless_nested_iff truncated hnested
  obtain ⟨-, hsame⟩ := hclosed [rootName] hopen (by decide +kernel)
  have hwhole : (parse? (truncated ++ endTags [rootName])).isSome = true := by decide +kernel
  have haccepted := hiff.mpr (Or.inl ⟨[rootName], "/keywordspec>".toList, hopen, hwhole⟩)
  exact ⟨hnested, hopen, by decide +kernel, haccepted, hsame.mpr haccepted⟩

/-- What is left of a library document whose root is still open counts as a library with fewer keywords. -/
theorem unclosed_accepted :
    ¬ Nested "<keywordspec><kw name=\"a\"></kw>".toList ∧
      (parse? "<keywordspec><kw name=\"a\"></kw>".toList).map (·.keywords.map (·.name)) = some ["a"] := by
  decide +kernel

end KeywordIndex.Libdoc
