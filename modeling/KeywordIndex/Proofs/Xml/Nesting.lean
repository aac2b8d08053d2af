import KeywordIndex.Proofs.Xml.Markup

namespace KeywordIndex.Xml

open Text

/-! # Elements inside of each other

In a nested text every start tag has its end tag, and what stands in between is nested again. A reading
without a fault tells more than that about its end: it is without a fault exactly if the text is nested apart
from some elements that stay open (`fault_eq_none_iff`).
-/

namespace Markup

/-- The name of the element that the markup begins. -/
def begun? : Markup → Option (List Char)
  | start tag _ _ _ => some tag.name
  | _ => none

/-- The name of the element that the markup ends. -/
def ended? : Markup → Option (List Char)
  | finish content _ => some (endName content)
  | _ => none

variable {m : Markup} {name : List Char} {names inner : List (List Char)}

theorem after?_of_begun (h : m.begun? = some name) : m.after? names = some (name :: names) := by
  cases m with
  | start => exact congrArg (fun name => some (name :: names)) (Option.some.inj h)
  | _ => cases h

theorem after?_eq_some_of_ended (h : m.ended? = some name) :
    m.after? names = some inner ↔ names = name :: inner := by
  cases m with
  | finish content hclosed =>
    obtain rfl := Option.some.inj h
    cases names with
    | nil => simp [after?]
    | cons innermost outer =>
      rw [after?, List.cons.injEq]
      split
      · next hname => simp [hname]
      · next hname => simp [Ne.symm hname]
  | _ => cases h

theorem after?_of_whole (hbegun : m.begun? = none) (hended : m.ended? = none) :
    m.after? names = some names := by
  cases m with
  | start => cases hbegun
  | finish => cases hended
  | _ => rfl

end Markup

/-- A text in which each start tag has its matching end tag, and each end tag its start tag. -/
inductive Nested : List Char → Prop
  | text {cs : List Char} (hcs : '<' ∉ cs) : Nested cs
  | whole {before rest : List Char} {m : Markup} (hbefore : '<' ∉ before) (hbegun : m.begun? = none)
      (hended : m.ended? = none) (hrest : Nested rest) : Nested (before ++ '<' :: (m.written ++ rest))
  | element {before inner rest name : List Char} {m m' : Markup} (hbefore : '<' ∉ before)
      (hbegun : m.begun? = some name) (hinner : Nested inner) (hended : m'.ended? = some name)
      (hrest : Nested rest) :
      Nested (before ++ '<' :: (m.written ++ (inner ++ '<' :: (m'.written ++ rest))))

/-- A text that would be nested if some elements, innermost first, were not open at its end. -/
inductive LeavesOpen : List (List Char) → List Char → Prop
  | nested {cs : List Char} (hcs : Nested cs) : LeavesOpen [] cs
  | begun {names : List (List Char)} {outer inner name : List Char} {m : Markup}
      (houter : LeavesOpen names outer) (hbegun : m.begun? = some name) (hinner : Nested inner) :
      LeavesOpen (name :: names) (outer ++ '<' :: (m.written ++ inner))

/-! ## From markup to markup -/

/-- Read inside of some elements, a text leaves other ones open. -/
inductive Ends : List (List Char) → List Char → List (List Char) → Prop
  | text {names : List (List Char)} {cs : List Char} (hcs : '<' ∉ cs) : Ends names cs names
  | markup {names inner left : List (List Char)} {before rest : List Char} {m : Markup}
      (hbefore : '<' ∉ before) (hm : m.after? names = some inner) (hrest : Ends inner rest left) :
      Ends names (before ++ '<' :: (m.written ++ rest)) left

/-- The names of the open elements after some events. -/
def namesAfter (names : List (List Char)) : List Event → List (List Char)
  | [] => names
  | .opened tag :: events => namesAfter (tag.name :: names) events
  | .closed :: events => namesAfter names.tail events
  | _ :: events => namesAfter names events

section Runs

variable {names inner left : List (List Char)} {cs rest : List Char}

theorem namesAfter_event {m : Markup} (hm : m.after? names = some inner) (events : List Event) :
    namesAfter names (m.event :: events) = namesAfter inner events := by
  cases m with
  | finish content hclosed =>
    obtain rfl := (Markup.after?_eq_some_of_ended rfl).mp hm
    rfl
  | _ =>
    obtain rfl := Option.some.inj hm
    rfl

theorem pushText_fault (cs : List Char) (r : Reading) : (r.pushText cs).fault = r.fault := by
  unfold Reading.pushText
  split <;> rfl

theorem namesAfter_pushText (cs : List Char) (r : Reading) :
    namesAfter names (r.pushText cs).events = namesAfter names r.events := by
  unfold Reading.pushText
  split <;> rfl

/-- A reading has no fault where markup follows markup to the end, and tells what is open there. -/
theorem ends_iff : Ends names cs left ↔
    (readFrom names cs).fault = none ∧ namesAfter names (readFrom names cs).events = left := by
  constructor
  · intro h
    induction h with
    | text hcs =>
      rw [readFrom_text hcs, pushText_fault, namesAfter_pushText]
      exact ⟨rfl, rfl⟩
    | markup hbefore hm _ ih =>
      rw [readFrom_written hbefore hm, pushText_fault, namesAfter_pushText]
      exact ⟨ih.1, (namesAfter_event hm _).trans ih.2⟩
  · rintro ⟨hfault, rfl⟩
    induction names, cs using reading_induction with
    | text names cs hcs =>
      rw [readFrom_text hcs, namesAfter_pushText]
      exact .text hcs
    | fault names before markup fault hbefore hread =>
      rw [readFrom_fault hbefore hread, pushText_fault] at hfault
      cases hfault
    | step names before m inner rest hbefore hm ih =>
      rw [readFrom_written hbefore hm, pushText_fault] at hfault
      rw [readFrom_written hbefore hm, namesAfter_pushText]
      exact .markup hbefore hm (namesAfter_event hm _ ▸ ih hfault)

theorem Ends.append {middle : List (List Char)} (h : Ends names cs middle)
    (hrest : Ends middle ('<' :: rest) left) : Ends names (cs ++ '<' :: rest) left := by
  induction h with
  | text hcs =>
    generalize htext : '<' :: rest = text at hrest ⊢
    cases hrest with
    | text hcs' => exact absurd (htext ▸ List.mem_cons_self) hcs'
    | markup hbefore hm hrest =>
      -- the markup is at the front of the rest
      obtain ⟨rfl, -⟩ := append_cons_inj (a := []) List.not_mem_nil hbefore htext
      exact .markup hcs hm hrest
  | markup hbefore hm _ ih =>
    have hmore := Ends.markup hbefore hm (ih hrest)
    simpa using hmore

theorem Nested.ends (h : Nested cs) : Ends names cs names := by
  induction h generalizing names with
  | text hcs => exact .text hcs
  | whole hbefore hbegun hended _ ih => exact .markup hbefore (Markup.after?_of_whole hbegun hended) ih
  | @element _ _ rest name _ m' hbefore hbegun _ hended _ ihinner ihrest =>
    have hend : Ends (name :: names) ([] ++ '<' :: (m'.written ++ rest)) names :=
      .markup List.not_mem_nil ((Markup.after?_eq_some_of_ended hended).mpr rfl) ihrest
    exact .markup hbefore (Markup.after?_of_begun hbegun) (ihinner.append hend)

theorem LeavesOpen.ends {opened : List (List Char)} (h : LeavesOpen opened cs) :
    Ends names cs (opened ++ names) := by
  induction h with
  | nested hcs => exact hcs.ends
  | begun _ hbegun hinner ih =>
    exact ih.append (.markup List.not_mem_nil (Markup.after?_of_begun hbegun) hinner.ends)

/-! ## Taking a text apart -/

/-- A text that closes some elements, innermost first, and then leaves others open. -/
inductive Splits : List (List Char) → List Char → List (List Char) → Prop
  | leavesOpen {opened : List (List Char)} {cs : List Char} (hcs : LeavesOpen opened cs) : Splits [] cs opened
  | ended {closed opened : List (List Char)} {inner rest name : List Char} {m : Markup} (hinner : Nested inner)
      (hended : m.ended? = some name) (hrest : Splits closed rest opened) :
      Splits (name :: closed) (inner ++ '<' :: (m.written ++ rest)) opened

/-- What may stand before a nested text may stand before any. -/
theorem LeavesOpen.prepend {front : List Char} (hfront : ∀ {cs}, Nested cs → Nested (front ++ cs))
    {opened : List (List Char)} (h : LeavesOpen opened cs) : LeavesOpen opened (front ++ cs) := by
  induction h with
  | nested hcs => exact .nested (hfront hcs)
  | begun _ hbegun hinner ih => simpa using ih.begun hbegun hinner

theorem Splits.prepend {front : List Char} (hfront : ∀ {cs}, Nested cs → Nested (front ++ cs))
    {closed opened : List (List Char)} (h : Splits closed cs opened) : Splits closed (front ++ cs) opened := by
  cases h with
  | leavesOpen hcs => exact .leavesOpen (hcs.prepend hfront)
  | ended hinner hended hrest => simpa using Splits.ended (hfront hinner) hended hrest

/-- An element that is begun before a text stays open outside of all that the text leaves open. -/
theorem LeavesOpen.begun_before {before name : List Char} {m : Markup} (hbefore : '<' ∉ before)
    (hbegun : m.begun? = some name) {opened : List (List Char)} (h : LeavesOpen opened cs) :
    LeavesOpen (opened ++ [name]) (before ++ '<' :: (m.written ++ cs)) := by
  induction h with
  | nested hcs => exact .begun (.nested (.text hbefore)) hbegun hcs
  | begun _ hlater hinner ih => simpa using ih.begun hlater hinner

/-- A run closes the innermost of the elements that were open before it, keeps the others open, and leaves
new ones open. -/
theorem Ends.splits (h : Ends names cs left) :
    ∃ closed kept opened, names = closed ++ kept ∧ left = opened ++ kept ∧ Splits closed cs opened := by
  induction h with
  | @text names cs hcs => exact ⟨[], names, [], rfl, rfl, .leavesOpen (.nested (.text hcs))⟩
  | @markup names inner left before rest m hbefore hm _ ih =>
    obtain ⟨closed, kept, opened, rfl, rfl, hsplits⟩ := ih
    cases hbegun : m.begun? with
    | some name =>
      obtain ⟨rfl, rfl⟩ | ⟨closed, rfl, rfl⟩ := List.append_eq_cons_iff.mp
        (Option.some.inj (hm.symm.trans (Markup.after?_of_begun hbegun)))
      · -- the element stays open
        cases hsplits with
        | leavesOpen hcs =>
          exact ⟨[], names, opened ++ [name], rfl, by simp, .leavesOpen (hcs.begun_before hbefore hbegun)⟩
      · -- the next end tag that is not matched behind it is its own
        cases hsplits with
        | @ended _ _ inner rest _ m' hinner hended hrest =>
          refine ⟨closed, kept, opened, rfl, rfl, ?_⟩
          have hfront : ∀ {cs}, Nested cs →
              Nested ((before ++ '<' :: (m.written ++ (inner ++ '<' :: m'.written))) ++ cs) := fun hcs => by
            simpa using Nested.element hbefore hbegun hinner hended hcs
          simpa using hrest.prepend hfront
    | none =>
      cases hended : m.ended? with
      | some name =>
        obtain rfl := (Markup.after?_eq_some_of_ended hended).mp hm
        exact ⟨name :: closed, kept, opened, rfl, rfl, .ended (.text hbefore) hended hsplits⟩
      | none =>
        obtain rfl := Option.some.inj (hm.symm.trans (Markup.after?_of_whole hbegun hended))
        refine ⟨closed, kept, opened, rfl, rfl, ?_⟩
        have hfront : ∀ {cs}, Nested cs → Nested ((before ++ '<' :: m.written) ++ cs) := fun hcs => by
          simpa using Nested.whole hbefore hbegun hended hcs
        simpa using hsplits.prepend hfront

/-- A text leaves open what its reading leaves open. -/
theorem leavesOpen_iff : LeavesOpen left cs ↔ Ends [] cs left := by
  constructor
  · intro h
    have hends : Ends [] cs (left ++ []) := h.ends
    rwa [List.append_nil] at hends
  · intro h
    obtain ⟨closed, kept, opened, hnames, rfl, hsplits⟩ := h.splits
    obtain ⟨rfl, rfl⟩ := List.append_eq_nil_iff.mp hnames.symm
    cases hsplits with
    | leavesOpen hcs => simpa using hcs

theorem nested_iff : Nested cs ↔ LeavesOpen [] cs := by
  refine ⟨.nested, fun h => ?_⟩
  cases h with
  | nested hcs => exact hcs

/-! ## Reading on -/

theorem prepend_events_pushText (cs : List Char) (r r' : Reading) :
    r.prepend (r'.pushText cs).events = (r.prepend r'.events).pushText cs := by
  unfold Reading.pushText
  split <;> rfl

/-- Behind a text reading goes on where the text ends. -/
theorem Ends.readFrom_append (h : Ends names cs left) (hrest : ∀ c ∈ rest.head?, c = '<') :
    readFrom names (cs ++ rest) = (readFrom left rest).prepend (readFrom names cs).events := by
  induction h with
  | text hcs =>
    rw [Xml.readFrom_append hcs hrest, readFrom_text hcs, prepend_events_pushText]
    rfl
  | markup hbefore hm _ ih =>
    rw [List.append_assoc, List.cons_append, List.append_assoc, readFrom_written hbefore hm,
      readFrom_written hbefore hm, prepend_events_pushText, ih]
    rfl

theorem Ends.cons_iff {c : Char} (hc : c ≠ '<') : Ends names (c :: cs) left ↔ Ends names cs left := by
  constructor
  · intro h
    generalize htext : c :: cs = text at h
    cases h with
    | text hcs => exact .text fun hmem => hcs (htext ▸ List.mem_cons_of_mem c hmem)
    | @markup _ _ _ before _ _ hbefore hm hrest =>
      cases before with
      | nil => exact absurd (List.cons.inj htext).1 hc
      | cons d before =>
        obtain ⟨-, rfl⟩ := List.cons.inj htext
        exact .markup (fun hmem => hbefore (List.mem_cons_of_mem d hmem)) hm hrest
  · intro h
    cases h with
    | text hcs => exact .text (by simpa using ⟨hc.symm, hcs⟩)
    | markup hbefore hm hrest =>
      rw [← List.cons_append]
      exact .markup (by simpa using ⟨hc.symm, hbefore⟩) hm hrest

/-- A document without its byte order mark. -/
def unmarked (document : List Char) : List Char :=
  match document with
  | '\uFEFF' :: cs => cs
  | _ => document

theorem read_eq (document : List Char) : read document = readFrom [] (unmarked document) := by
  rw [read.eq_def]
  split
  · rfl
  · next hne => rw [unmarked.eq_2 document hne]

theorem unmarked_cases (document : List Char) :
    document = unmarked document ∨ document = '\uFEFF' :: unmarked document := by
  unfold unmarked
  split
  · exact Or.inr rfl
  · exact Or.inl rfl

theorem unmarked_append (document rest : List Char) :
    unmarked (document ++ '<' :: rest) = unmarked document ++ '<' :: rest := by
  cases document with
  | nil => rfl
  | cons c document =>
    by_cases hc : c = '\uFEFF'
    · rw [hc]
      rfl
    · unfold unmarked
      split
      · next heq => exact absurd (List.cons.inj heq).1 hc
      · split
        · next heq => exact absurd (List.cons.inj heq).1 hc
        · rfl

/-- The byte order mark is text. -/
theorem ends_unmarked_iff (document : List Char) :
    Ends names (unmarked document) left ↔ Ends names document left := by
  rcases unmarked_cases document with hdocument | hdocument
  · rw [← hdocument]
  · conv_rhs => rw [hdocument, Ends.cons_iff (by decide)]

/-- Behind a document reading goes on inside the elements that it leaves open. -/
theorem LeavesOpen.read_append {document : List Char} (h : LeavesOpen names document) (rest : List Char) :
    read (document ++ '<' :: rest) =
      (readFrom names ('<' :: rest)).prepend (read document).events := by
  have hends := (ends_unmarked_iff document).mpr (leavesOpen_iff.mp h)
  rw [read_eq, read_eq, unmarked_append]
  exact hends.readFrom_append (by simp)

/-- A reading is without a fault exactly if the document is nested apart from some elements that stay open. -/
theorem fault_eq_none_iff {document : List Char} :
    (read document).fault = none ↔ ∃ names, LeavesOpen names document := by
  simp only [leavesOpen_iff, ← ends_unmarked_iff document, ends_iff, ← read_eq]
  exact ⟨fun hfault => ⟨_, hfault, rfl⟩, fun ⟨_, hfault, _⟩ => hfault⟩

instance : Decidable (LeavesOpen left cs) :=
  decidable_of_iff ((readFrom [] cs).fault = none ∧ namesAfter [] (readFrom [] cs).events = left)
    (leavesOpen_iff.trans ends_iff).symm

instance : Decidable (Nested cs) := decidable_of_iff (LeavesOpen [] cs) nested_iff.symm

end Runs

/-! ## Missing end tags -/

/-- End tags for some open elements, innermost first. -/
def endTags (names : List (List Char)) : List Char := names.flatMap fun name => '<' :: '/' :: (name ++ ['>'])

/-- The name of an element is its own name in an end tag. -/
theorem Markup.endName_of_begun {m : Markup} {name : List Char} (h : m.begun? = some name) :
    endName name = name := by
  cases m with
  | start tag =>
    obtain rfl := Option.some.inj h
    have hdrop : endName.dropEndSpace tag.name = tag.name := by
      unfold endName.dropEndSpace
      rw [List.reverse_eq_iff]
      refine List.dropWhile_eq_self_iff.mpr fun hlength => ?_
      have hmem : tag.name.reverse[0] ∈ tag.name := List.mem_reverse.mp (List.getElem_mem hlength)
      simpa using List.mem_takeWhile_imp hmem
    unfold endName
    rw [hdrop]
    split <;> simp_all
  | _ => cases h

theorem LeavesOpen.endName_eq {names : List (List Char)} {cs : List Char} (h : LeavesOpen names cs) :
    ∀ name ∈ names, endName name = name := by
  induction h with
  | nested => simp
  | begun _ hbegun _ ih => exact List.forall_mem_cons.mpr ⟨Markup.endName_of_begun hbegun, ih⟩

theorem ends_endTags {names : List (List Char)} (hnames : ∀ name ∈ names, endName name = name)
    (htexts : ∀ name ∈ names, TagText name) : Ends names (endTags names) [] := by
  induction names with
  | nil => exact .text List.not_mem_nil
  | cons name names ih =>
    obtain ⟨hname, hnames⟩ := List.forall_mem_cons.mp hnames
    obtain ⟨htext, htexts⟩ := List.forall_mem_cons.mp htexts
    have hfinish : (Markup.finish name htext).after? (name :: names) = some names :=
      (Markup.after?_eq_some_of_ended rfl).mpr (by rw [hname])
    simpa [endTags, Markup.written] using Ends.markup List.not_mem_nil hfinish (ih hnames htexts)

/-- With its missing end tags a text is nested. -/
theorem LeavesOpen.nested_endTags {names : List (List Char)} {cs : List Char} (h : LeavesOpen names cs)
    (htexts : ∀ name ∈ names, TagText name) : Nested (cs ++ endTags names) := by
  have hclosed := ends_endTags h.endName_eq htexts
  rw [nested_iff, leavesOpen_iff]
  cases names with
  | nil => simpa [endTags] using leavesOpen_iff.mp h
  | cons name names => exact (leavesOpen_iff.mp h).append hclosed

/-- Missing end tags are read as nothing but the ends of the elements. -/
theorem readFrom_endTags {names : List (List Char)} (hnames : ∀ name ∈ names, endName name = name)
    (htexts : ∀ name ∈ names, TagText name) :
    readFrom names (endTags names) = ⟨List.replicate names.length .closed, none⟩ := by
  induction names with
  | nil => exact readFrom_text List.not_mem_nil
  | cons name names ih =>
    obtain ⟨hname, hnames⟩ := List.forall_mem_cons.mp hnames
    obtain ⟨htext, htexts⟩ := List.forall_mem_cons.mp htexts
    have hfinish : (Markup.finish name htext).after? (name :: names) = some names :=
      (Markup.after?_eq_some_of_ended rfl).mpr (by rw [hname])
    have hread := readFrom_written (List.not_mem_nil : '<' ∉ []) hfinish (endTags names)
    rw [ih hnames htexts] at hread
    simpa [endTags, Markup.written, Markup.event, Reading.push, Reading.pushText, List.replicate_succ] using hread

end KeywordIndex.Xml
