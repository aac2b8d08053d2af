import KeywordIndex.Proofs.Libdoc.Walking

namespace KeywordIndex.Libdoc

open Text
open Xml (Ends Event Markup Tag TagText)

/-! # The start tags of keywords

The start tags of a document come one behind the other (`tagsFrom_spec`). A walk begins a keyword at each
of them that stands at the place of one, and finishes keywords in the order in which they begin, so its
keywords have the names that their start tags say (`keywords_named`).
-/

/-! ## Start tags -/

/-- A start tag in a text. It may close itself. -/
structure TagPlace where
  /-- The names of the elements around it, innermost first. -/
  names : List (List Char)
  tag : Tag
  /-- What stands between its angle brackets. -/
  inside : List Char
  /-- What follows it. -/
  rest : List Char

namespace TagPlace

/-- The text from the tag on. -/
def text (t : TagPlace) : List Char := '<' :: (t.inside ++ '>' :: t.rest)

/-- Whether the tag begins a keyword. -/
def isKeyword (t : TagPlace) : Bool := ElementPath.isKeyword (t.tag.localName :: t.names.map Tag.localPart)

/-- The name that the tag gives a keyword, unless the attributes in front of it are not well-formed. -/
def name? (t : TagPlace) : Option String :=
  match t.tag.value? nameAttribute with
  | .ok value => some (String.ofList (trim (value.getD [])))
  | .error _ => none

/-- The start tag that an event tells of, with the text behind it. -/
def ofEvent? (names : List (List Char)) (rest : List Char) : Event → Option TagPlace
  | .opened tag => some ⟨names, tag, tag.content, rest⟩
  | .selfClosed tag => some ⟨names, tag, tag.content ++ ['/'], rest⟩
  | _ => none

end TagPlace

/-- The start tags of the text `cs`, read inside of the elements with the names. -/
def tagsFrom (names : List (List Char)) (cs : List Char) : List TagPlace :=
  match h : cs.dropWhile (· ≠ '<') with
  | [] => []
  | _ :: markup =>
    match hstep : Xml.readMarkup names markup with
    | .error _ => []
    | .ok step =>
      have : step.rest.length < cs.length := by
        have hbound := (List.dropWhile_sublist (· ≠ '<') (l := cs)).length_le
        have hshorter := Xml.readMarkup_length hstep
        rw [h, List.length_cons] at hbound
        omega
      (TagPlace.ofEvent? names step.rest step.event).toList ++ tagsFrom step.names step.rest
termination_by cs.length

/-- The start tags of a document that begin keywords. -/
def keywordTags (document : List Char) : List TagPlace :=
  (tagsFrom [] (Xml.unmarked document)).filter (·.isKeyword)

variable {names inner left : List (List Char)} {cs before rest : List Char}

theorem tagsFrom_text (h : '<' ∉ cs) : tagsFrom names cs = [] := by
  have hdrop : cs.dropWhile (· ≠ '<') = [] := List.dropWhile_eq_nil_iff.mpr (forall_ne_of_notMem h)
  rw [tagsFrom]
  split
  · rfl
  · next heq => cases hdrop.symm.trans heq

theorem tagsFrom_markup (h : '<' ∉ before) (markup : List Char) :
    tagsFrom names (before ++ '<' :: markup) =
      match Xml.readMarkup names markup with
      | .error _ => []
      | .ok step => (TagPlace.ofEvent? names step.rest step.event).toList ++ tagsFrom step.names step.rest := by
  have hdrop : (before ++ '<' :: markup).dropWhile (· ≠ '<') = '<' :: markup := by
    rw [List.dropWhile_append_of_pos (forall_ne_of_notMem h)]
    simp
  rw [tagsFrom]
  split
  · next heq => cases hdrop.symm.trans heq
  · next heq =>
    obtain ⟨-, rfl⟩ := List.cons.inj (hdrop.symm.trans heq)
    split
    · next hstep => simp only [hstep]
    · next hstep => simp only [hstep]

theorem tagsFrom_written (h : '<' ∉ before) {m : Markup} (hm : m.after? names = some inner) (rest : List Char) :
    tagsFrom names (before ++ '<' :: (m.written ++ rest)) =
      (TagPlace.ofEvent? names rest m.event).toList ++ tagsFrom inner rest := by
  rw [tagsFrom_markup h, m.readMarkup_written hm]

/-- A start tag as it stands in a text. -/
structure TagPlace.StandsIn (t : TagPlace) (cs : List Char) : Prop where
  text_suffix : t.text <:+ cs
  closed : TagText t.inside
  inside_cases : t.inside = t.tag.content ∨ t.inside = t.tag.content ++ ['/']

theorem TagPlace.standsIn_of_event {m : Markup} {t : TagPlace}
    (h : TagPlace.ofEvent? names rest m.event = some t) :
    t.StandsIn ('<' :: (m.written ++ rest)) ∧ t.rest = rest := by
  cases m with
  | start tag hclosed =>
    obtain rfl := Option.some.inj h
    exact ⟨⟨by simp [TagPlace.text, Markup.written], hclosed, Or.inl rfl⟩, rfl⟩
  | empty tag hclosed =>
    obtain rfl := Option.some.inj h
    exact ⟨⟨by simp [TagPlace.text, Markup.written], hclosed, Or.inr rfl⟩, rfl⟩
  | _ => cases h

/-- Start tags stand in the text one behind the other. -/
theorem tagsFrom_spec (names : List (List Char)) (cs : List Char) :
    (∀ t ∈ tagsFrom names cs, t.StandsIn cs) ∧
      (tagsFrom names cs).Pairwise fun t later => later.text <:+ t.rest := by
  induction names, cs using Xml.reading_induction with
  | text names cs hcs => simp [tagsFrom_text hcs]
  | fault names before markup fault hbefore hread => simp [tagsFrom_markup hbefore, hread]
  | step names before m inner rest hbefore hm ih =>
    obtain ⟨hstands, hpairwise⟩ := ih
    have hrest : rest <:+ before ++ '<' :: (m.written ++ rest) := ⟨before ++ '<' :: m.written, by simp⟩
    have hlater : ∀ t ∈ tagsFrom inner rest, t.StandsIn (before ++ '<' :: (m.written ++ rest)) := fun t ht =>
      ⟨(hstands t ht).text_suffix.trans hrest, (hstands t ht).closed, (hstands t ht).inside_cases⟩
    rw [tagsFrom_written hbefore hm]
    cases htag : TagPlace.ofEvent? names rest m.event with
    | none => exact ⟨hlater, hpairwise⟩
    | some t =>
      obtain ⟨hfirst, rfl⟩ := TagPlace.standsIn_of_event htag
      refine ⟨?_, List.pairwise_cons.mpr ⟨fun later hmem => (hstands later hmem).text_suffix, hpairwise⟩⟩
      rw [Option.toList_some, List.singleton_append, List.forall_mem_cons]
      exact ⟨⟨hfirst.text_suffix.trans (List.suffix_append before _), hfirst.closed, hfirst.inside_cases⟩, hlater⟩

/-! ## Keywords under way -/

namespace ElementPath

/-- The path goes through a keyword. -/
def InKeyword (path : ElementPath) : Prop := ∃ outer : ElementPath, outer <:+ path ∧ outer.isKeyword = true

variable {name : List Char} {path : ElementPath}

theorem not_inKeyword_nil : ¬ InKeyword [] := by
  rintro ⟨outer, hsuffix, hkeyword⟩
  rw [List.suffix_nil.mp hsuffix] at hkeyword
  cases hkeyword

theorem inKeyword_cons_iff : InKeyword (name :: path) ↔ isKeyword (name :: path) = true ∨ InKeyword path := by
  simp only [InKeyword, List.suffix_cons_iff]
  constructor
  · rintro ⟨outer, rfl | hsuffix, hkeyword⟩
    · exact Or.inl hkeyword
    · exact Or.inr ⟨outer, hsuffix, hkeyword⟩
  · rintro (hkeyword | ⟨outer, hsuffix, hkeyword⟩)
    · exact ⟨_, Or.inl rfl, hkeyword⟩
    · exact ⟨outer, Or.inr hsuffix, hkeyword⟩

/-- No keyword is inside of another one. -/
theorem not_inKeyword_of_isKeyword (h : isKeyword (name :: path) = true) : ¬ InKeyword path := by
  unfold isKeyword at h
  split at h
  · next heq =>
    obtain ⟨-, rfl⟩ := List.cons.inj heq
    simp [inKeyword_cons_iff, not_inKeyword_nil, isKeyword]
  · next heq =>
    obtain ⟨-, rfl⟩ := List.cons.inj heq
    simp only [Bool.and_eq_true, beq_iff_eq] at h
    obtain ⟨⟨-, rfl⟩, -⟩ := h
    have hname : (keywordsName == keywordName) = false := by decide
    simp [inKeyword_cons_iff, not_inKeyword_nil, isKeyword, hname]
  · cases h

end ElementPath

namespace Walk

variable {w w' : Walk}

/-- The names of the keywords that have begun, in this order. -/
def begun (w : Walk) : List String :=
  w.keywords.map (·.name) ++ w.draftName?.toList.map fun name => String.ofList (trim name)

/-- The walk stands in the elements with the names. A keyword is under way where it stands inside of one, and
finished keywords have no positions yet. -/
structure Tracks (w : Walk) (names : List (List Char)) : Prop extends w.Follows names where
  drafting : w.draftName?.isSome = true ↔ ElementPath.InKeyword w.path
  unplaced : ∀ keyword ∈ w.keywords, keyword.position = none

theorem tracks_start : ({} : Walk).Tracks [] where
  toFollows := follows_start
  drafting := by simp [draftName?, ElementPath.not_inKeyword_nil]
  unplaced := by simp

theorem name?_of_ofTag {t : TagPlace} {draft : Draft} (h : Draft.ofTag t.tag = .ok draft) :
    t.name? = some (String.ofList (trim draft.name)) := by
  unfold Draft.ofTag at h
  cases hvalue : t.tag.value? nameAttribute with
  | error fault => simp [hvalue, Except.map] at h
  | ok value =>
    rw [hvalue] at h
    cases h
    simp only [TagPlace.name?, hvalue]

theorem Tracks.readText (h : w.Tracks names) (hread : w.readText cs = .ok w') :
    w'.Tracks names ∧ w'.begun = w.begun := by
  obtain ⟨hpath, -, hkeywords, hdraft⟩ := readText_flat hread
  refine ⟨⟨h.toFollows.readText hread, ?_, ?_⟩, ?_⟩
  · rw [hdraft, hpath]
    exact h.drafting
  · rw [hkeywords]
    exact h.unplaced
  · rw [begun, hkeywords, hdraft]
    rfl

theorem Tracks.draftName?_eq_none (h : w.Tracks names) (houtside : ¬ ElementPath.InKeyword w.path) :
    w.draftName? = none :=
  Option.not_isSome_iff_eq_none.mp fun hsome => houtside (h.drafting.mp hsome)

/-- A start tag begins a keyword if it is at the place of one. -/
theorem Tracks.read_opened {tag : Tag} (h : w.Tracks names) (hfollows : w'.Follows (tag.name :: names))
    (hread : w.read (.opened tag) = .ok w') (rest : List Char) :
    w'.Tracks (tag.name :: names) ∧ w'.begun.map some = w.begun.map some ++
      ((TagPlace.ofEvent? names rest (.opened tag)).toList.filter (·.isKeyword)).map (·.name?) := by
  obtain ⟨hpath, -, hkeywords, hdraft⟩ := Walk.read_opened hread
  let t : TagPlace := ⟨names, tag, tag.content, rest⟩
  have hplace : t.isKeyword = ElementPath.isKeyword (tag.localName :: w.path) := by
    rw [h.path_eq]
    rfl
  have hunplaced : ∀ keyword ∈ w'.keywords, keyword.position = none := hkeywords ▸ h.unplaced
  split at hdraft
  · next hkeyword =>
    obtain ⟨draft, hbegun, hdraft⟩ := hdraft
    have hnone := h.draftName?_eq_none (ElementPath.not_inKeyword_of_isKeyword hkeyword)
    have hname : w'.draftName? = some draft.name := by rw [draftName?, hdraft]; rfl
    refine ⟨⟨hfollows, ?_, hunplaced⟩, ?_⟩
    · rw [hname, hpath, ElementPath.inKeyword_cons_iff]
      simp [hkeyword]
    · have htag : [t].filter (·.isKeyword) = [t] := List.filter_cons_of_pos (hplace.trans hkeyword)
      have hnames : t.name? = some (String.ofList (trim draft.name)) := name?_of_ofTag hbegun
      rw [TagPlace.ofEvent?, Option.toList_some, htag]
      simp [begun, hkeywords, hname, hnone, hnames]
  · next hkeyword =>
    refine ⟨⟨hfollows, ?_, hunplaced⟩, ?_⟩
    · rw [hdraft, hpath, ElementPath.inKeyword_cons_iff, h.drafting]
      simp [hkeyword]
    · have htag : [t].filter (·.isKeyword) = [] := List.filter_cons_of_neg (by rwa [hplace])
      rw [TagPlace.ofEvent?, Option.toList_some, htag]
      simp [begun, hkeywords, hdraft]

/-- A tag that closes itself is a whole keyword if it is at the place of one. -/
theorem Tracks.read_selfClosed {tag : Tag} (h : w.Tracks names) (hfollows : w'.Follows names)
    (hread : w.read (.selfClosed tag) = .ok w') (rest : List Char) :
    w'.Tracks names ∧ w'.begun.map some = w.begun.map some ++
      ((TagPlace.ofEvent? names rest (.selfClosed tag)).toList.filter (·.isKeyword)).map (·.name?) := by
  obtain ⟨hpath, -, hdraft, hkeywords⟩ := Walk.read_selfClosed hread
  let t : TagPlace := ⟨names, tag, tag.content ++ ['/'], rest⟩
  have hplace : t.isKeyword = ElementPath.isKeyword (tag.localName :: w.path) := by
    rw [h.path_eq]
    rfl
  have hdrafting : w'.draftName?.isSome = true ↔ ElementPath.InKeyword w'.path := by
    rw [hdraft, hpath]
    exact h.drafting
  split at hkeywords
  · next hkeyword =>
    obtain ⟨draft, hbegun, hkeywords⟩ := hkeywords
    have hnone := h.draftName?_eq_none (ElementPath.not_inKeyword_of_isKeyword hkeyword)
    refine ⟨⟨hfollows, hdrafting, ?_⟩, ?_⟩
    · rw [hkeywords, List.forall_mem_append]
      exact ⟨h.unplaced, by simp [Draft.finish]⟩
    · have htag : [t].filter (·.isKeyword) = [t] := List.filter_cons_of_pos (hplace.trans hkeyword)
      have hnames : t.name? = some (String.ofList (trim draft.name)) := name?_of_ofTag hbegun
      rw [TagPlace.ofEvent?, Option.toList_some, htag]
      simp [begun, hkeywords, hdraft, hnone, hnames, Draft.finish]
  · next hkeyword =>
    refine ⟨⟨hfollows, hdrafting, hkeywords ▸ h.unplaced⟩, ?_⟩
    have htag : [t].filter (·.isKeyword) = [] := List.filter_cons_of_neg (by rwa [hplace])
    rw [TagPlace.ofEvent?, Option.toList_some, htag]
    simp [begun, hkeywords, hdraft]

/-- An end tag finishes the keyword under way if it is that of its element, and begins none. -/
theorem Tracks.closeElement (h : w.Tracks (name :: names)) (hfollows : w.closeElement.Follows names) :
    w.closeElement.Tracks names ∧ w.closeElement.begun = w.begun := by
  obtain ⟨hpath, -, hclosed⟩ := read_closed w
  have hinside : w.path = Tag.localPart name :: w.closeElement.path := by
    rw [hpath, h.path_eq]
    rfl
  have hdrafting := h.drafting
  rw [hinside, ElementPath.inKeyword_cons_iff, ← hinside] at hdrafting
  split at hclosed
  · next draft hdraft =>
    have hname : w.draftName? = some draft.name := by rw [draftName?, hdraft]; rfl
    split at hclosed
    · next hkeyword =>
      obtain ⟨hnone, hkeywords⟩ := hclosed
      have houtside := ElementPath.not_inKeyword_of_isKeyword (hinside ▸ hkeyword)
      refine ⟨⟨hfollows, ?_, ?_⟩, ?_⟩
      · simp [draftName?, hnone, houtside]
      · rw [hkeywords, List.forall_mem_append]
        exact ⟨h.unplaced, by simp [Draft.finish]⟩
      · simp [begun, hkeywords, draftName?, hdraft, hnone, Draft.finish]
    · next hkeyword =>
      obtain ⟨hdraft, hkeywords⟩ := hclosed
      refine ⟨⟨hfollows, ?_, hkeywords ▸ h.unplaced⟩, ?_⟩
      · rw [hdraft, hdrafting]
        simp [hkeyword]
      · rw [begun, hkeywords, hdraft, begun]
  · next hdraft =>
    obtain ⟨hnone, hkeywords⟩ := hclosed
    have hname : w.draftName? = none := by rw [draftName?, hdraft]; rfl
    rw [hname] at hdrafting
    refine ⟨⟨hfollows, ?_, hkeywords ▸ h.unplaced⟩, ?_⟩
    · simp only [Option.isSome_none, Bool.false_eq_true, false_iff, not_or] at hdrafting
      simp [draftName?, hnone, hdrafting.2]
    · simp [begun, hkeywords, draftName?, hdraft, hnone]

/-- A markup begins a keyword if it is a start tag at the place of one. -/
theorem Tracks.read {m : Markup} (h : w.Tracks names) (hm : m.after? names = some inner)
    (hread : w.read m.event = .ok w') (rest : List Char) :
    w'.Tracks inner ∧ w'.begun.map some = w.begun.map some ++
      ((TagPlace.ofEvent? names rest m.event).toList.filter (·.isKeyword)).map (·.name?) := by
  have hfollows := h.toFollows.read hm hread
  cases m with
  | start tag hclosed =>
    obtain rfl := Option.some.inj hm
    exact h.read_opened hfollows hread rest
  | empty tag hclosed =>
    obtain rfl := Option.some.inj hm
    exact h.read_selfClosed hfollows hread rest
  | finish content hclosed =>
    obtain rfl := (Markup.after?_eq_some_of_ended rfl).mp hm
    obtain rfl := Except.ok.inj hread
    obtain ⟨htracks, hbegun⟩ := h.closeElement hfollows
    refine ⟨htracks, ?_⟩
    rw [hbegun]
    exact (List.append_nil _).symm
  | _ =>
    obtain rfl := Option.some.inj hm
    obtain ⟨hpath, -, hkeywords, hdraft⟩ := read_flat (by trivial) hread
    refine ⟨⟨hfollows, ?_, hkeywords ▸ h.unplaced⟩, ?_⟩
    · rw [hdraft, hpath]
      exact h.drafting
    · rw [begun, hkeywords, hdraft]
      exact (List.append_nil _).symm

/-- A walk that gets through a text begins a keyword at each start tag that is at the place of one. -/
theorem Tracks.foldlM (h : w.Tracks names) (hends : Ends names cs left)
    (hrun : (Xml.readFrom names cs).events.foldlM Walk.read w = .ok w') :
    w'.Tracks left ∧ w'.begun.map some = w.begun.map some ++
      ((tagsFrom names cs).filter (·.isKeyword)).map (·.name?) := by
  induction hends generalizing w with
  | text hcs =>
    obtain ⟨htracks, hbegun⟩ := h.readText (last_of_foldlM hcs hrun)
    refine ⟨htracks, ?_⟩
    rw [hbegun, tagsFrom_text hcs]
    exact (List.append_nil _).symm
  | @markup _ _ _ before rest m hbefore hm _ ih =>
    obtain ⟨u, v, hu, hv, hrun⟩ := steps_of_foldlM hbefore hm hrun
    obtain ⟨hu, hbefore'⟩ := h.readText hu
    obtain ⟨hv, hadded⟩ := hu.read hm hv rest
    obtain ⟨hend, hmore⟩ := ih hv hrun
    refine ⟨hend, ?_⟩
    rw [hmore, hadded, hbefore', tagsFrom_written hbefore hm, List.filter_append, List.map_append,
      List.append_assoc]

end Walk

/-! ## The keywords of a document -/

/-- The keywords of an accepted document are placed by its markers. They have the names that the first start
tags of keywords say, and then comes at most that of the keyword left open. Only behind an empty root no names
are read. -/
theorem keywords_named {document : List Char} {outline : Outline} (h : parse? document = some outline) :
    ∃ keywords, outline.keywords = place (LineIndex.ofText document) (markers document) keywords ∧
      (∀ keyword ∈ keywords, keyword.position = none) ∧
      (keywords = [] ∨ ∃ unfinished : Option String,
        (keywords.map (·.name) ++ unfinished.toList).map some = (keywordTags document).map (·.name?)) := by
  rcases parse?_eq_some_iff.mp h with ⟨-, rfl⟩ | ⟨w, hwalk, hfault, -, rfl⟩
  · exact ⟨[], rfl, by simp, Or.inl rfl⟩
  · obtain ⟨left, hleft⟩ := Xml.fault_eq_none_iff.mp hfault
    rw [walkThrough, Xml.read_eq] at hwalk
    obtain ⟨htracks, hnames⟩ := Walk.tracks_start.foldlM
      ((Xml.ends_unmarked_iff document).mpr (Xml.leavesOpen_iff.mp hleft)) hwalk
    rw [Walk.begun, ← Option.toList_map] at hnames
    exact ⟨w.keywords, rfl, htracks.unplaced, Or.inr ⟨_, hnames⟩⟩

end KeywordIndex.Libdoc
