import KeywordIndex.Proofs.Libdoc.KeywordTags
import KeywordIndex.Proofs.Libdoc.Markers
import KeywordIndex.Proofs.Text.Positions

namespace KeywordIndex.Libdoc

open Text
open Xml (Tag TagText)

/-! # Where keywords are placed

A keyword that has a position has that of a marker with its name (`exists_of_place`). Where all start tags of
keywords are written as markers, and nothing else is, the search finds each of them, with the name that it
gives its keyword (`exists_marker`, `exists_tag`). So keywords of different names are all placed at their own
start tags (`positions_from_markers`).
-/

/-! ## Placing -/

theorem exists_of_lastOffset? {name : String} {marks : List Marker} {offset : Nat}
    (h : lastOffset? name marks = some offset) :
    ∃ marker ∈ marks, marker.name = name.toList ∧ marker.offset = offset := by
  obtain ⟨marker, hfind, rfl⟩ := Option.map_eq_some_iff.mp h
  have hmem := List.mem_reverse.mp (List.mem_of_find?_eq_some hfind)
  exact ⟨marker, hmem, by simpa using List.find?_some hfind, rfl⟩

/-- A name that only markers at one offset have is found there. -/
theorem lastOffset?_of_unique {name : String} {marks : List Marker} {marker : Marker} (h : marker ∈ marks)
    (hname : marker.name = name.toList)
    (hunique : ∀ other ∈ marks, other.name = name.toList → other.offset = marker.offset) :
    lastOffset? name marks = some marker.offset := by
  cases hlast : lastOffset? name marks with
  | none =>
    have hnone := List.find?_eq_none.mp (Option.map_eq_none_iff.mp hlast) marker (List.mem_reverse.mpr h)
    exact absurd (beq_iff_eq.mpr hname) hnone
  | some offset =>
    obtain ⟨other, hother, hsame, rfl⟩ := exists_of_lastOffset? hlast
    rw [hunique other hother hsame]

/-- A keyword that is given a position is given that of the last marker with its name. -/
theorem exists_of_place {index : LineIndex} {marks : List Marker} {keywords : List Declaration}
    (hunplaced : ∀ keyword ∈ keywords, keyword.position = none) {keyword : Declaration}
    (h : keyword ∈ place index marks keywords) {position : Position}
    (hposition : keyword.position = some position) :
    ∃ offset, lastOffset? keyword.name marks = some offset ∧ position = index.position offset := by
  induction keywords with
  | nil => cases h
  | cons first rest ih =>
    obtain ⟨hfirst, hrest⟩ := List.forall_mem_cons.mp hunplaced
    rw [place] at h
    rcases List.mem_cons.mp h with rfl | h
    · split at hposition
      · rw [hfirst] at hposition
        cases hposition
      · next hlast =>
        rw [if_neg hlast]
        obtain ⟨offset, hoffset, rfl⟩ := Option.map_eq_some_iff.mp hposition
        exact ⟨offset, hoffset, rfl⟩
    · exact ih hrest h

/-- Keywords of different names are all placed by their markers. -/
theorem place_of_nodup {index : LineIndex} {marks : List Marker} {keywords : List Declaration}
    (h : (keywords.map (·.name)).Nodup) :
    place index marks keywords = keywords.map fun keyword =>
      { keyword with position := (lastOffset? keyword.name marks).map index.position } := by
  induction keywords with
  | nil => rfl
  | cons keyword rest ih =>
    obtain ⟨hfresh, hrest⟩ := List.nodup_cons.mp h
    have hlast : ¬ rest.any (·.name == keyword.name) = true := by
      rw [List.any_eq_true]
      rintro ⟨later, hlater, hsame⟩
      exact hfresh (List.mem_map.mpr ⟨later, hlater, beq_iff_eq.mp hsame⟩)
    rw [place, ih hrest, if_neg hlast, List.map_cons]

/-! ## Tags that are markers -/

/-- What a marker begins with, between its bracket and its first quotation mark. -/
def markerName : List Char := "kw name=".toList

theorem markerLead_eq : markerLead = '<' :: (markerName ++ ['"']) := by decide

section Marked

variable {t : TagPlace} {cs document value more written rest : List Char}

/-- A start tag that is written as a marker holds the value of the marker. -/
theorem exists_value (h : TagText t.inside) (hmarked : markerLead <+: t.text) :
    ∃ value more, t.inside = markerName ++ '"' :: (value ++ '"' :: more) ∧ '"' ∉ value := by
  have hlead : markerName ++ ['"'] <+: t.inside := by
    rw [markerLead_eq, TagPlace.text, List.cons_prefix_cons] at hmarked
    exact prefix_of_prefix_append_cons (by decide) hmarked.2
  obtain ⟨inner, hinner⟩ := hlead
  rw [List.append_assoc, List.singleton_append] at hinner
  rw [← hinner] at h
  obtain ⟨value, more, rfl, hvalue⟩ := (h.of_append (by decide)).exists_value
  exact ⟨value, more, hinner.symm, hvalue⟩

theorem text_eq (h : t.inside = markerName ++ '"' :: (value ++ '"' :: more)) :
    t.text = markerLead ++ (value ++ '"' :: (more ++ '>' :: t.rest)) := by
  rw [TagPlace.text, h, markerLead_eq]
  simp

/-- The value of a marker ends inside of the tag. -/
theorem inside_eq (h : TagText t.inside) (htext : t.text = markerLead ++ (written ++ '"' :: rest))
    (hwritten : '"' ∉ written) : ∃ more, t.inside = markerName ++ '"' :: (written ++ '"' :: more) := by
  obtain ⟨value, more, hinside, hvalue⟩ := exists_value h ⟨_, htext.symm⟩
  rw [text_eq hinside, List.append_cancel_left_eq] at htext
  obtain ⟨rfl, -⟩ := append_cons_inj hvalue hwritten htext
  exact ⟨more, hinside⟩

theorem attributeAfter_marked (hvalue : '"' ∉ value) (total : Nat) (more : List Char) :
    Tag.attributeAfter total 'n' ("ame".toList ++ '=' :: '"' :: (value ++ '"' :: more)) =
      .ok ⟨nameAttribute, value, more⟩ := by
  obtain ⟨htake, hdrop⟩ := takeWhile_written hvalue more
  have hkey : ∀ c ∈ "ame".toList, Tag.isKeyChar c = true := by decide
  have hequals : ¬ Tag.isKeyChar '=' = true := by decide
  have hspace : ¬ Xml.isSpace '=' = true ∧ ¬ Xml.isSpace '"' = true := by decide
  rw [Tag.attributeAfter, List.dropWhile_append_of_pos hkey, List.dropWhile_cons_of_neg hequals,
    List.dropWhile_cons_of_neg hspace.1, List.takeWhile_append_of_pos hkey, List.takeWhile_cons_of_neg hequals]
  simp only [if_true, Tag.quotedValue, List.dropWhile_cons_of_neg hspace.2, true_or, htake, hdrop]
  rfl

theorem valueFrom_marked (hvalue : '"' ∉ value) (total : Nat) (more : List Char) :
    Tag.valueFrom nameAttribute total (' ' :: 'n' :: ("ame".toList ++ '=' :: '"' :: (value ++ '"' :: more))) =
      .ok (some value) := by
  have hspace : Xml.isSpace ' ' = true ∧ ¬ Xml.isSpace 'n' = true := by decide
  have hfound := attributeAfter_marked hvalue total more
  rw [Tag.valueFrom]
  split
  · next hdrop =>
    rw [List.dropWhile_cons_of_pos hspace.1, List.dropWhile_cons_of_neg hspace.2] at hdrop
    cases hdrop
  · next hdrop =>
    rw [List.dropWhile_cons_of_pos hspace.1, List.dropWhile_cons_of_neg hspace.2] at hdrop
    obtain ⟨rfl, rfl⟩ := List.cons.inj hdrop
    split
    · next heq => cases hfound.symm.trans heq
    · next heq =>
      obtain rfl := Except.ok.inj (hfound.symm.trans heq)
      exact if_pos rfl

/-- The value of the marker is that of the name attribute. -/
theorem value?_marked {tag : Tag} (h : tag.content = markerName ++ '"' :: (value ++ '"' :: more))
    (hvalue : '"' ∉ value) :
    tag.value? nameAttribute =
      match Xml.unescape value with
      | .error fault => .error (.badReference fault)
      | .ok text => .ok (some text) := by
  have hname : tag.name = ['k', 'w'] := by
    rw [Tag.name, h]
    rfl
  have hrest : tag.content.drop tag.name.length =
      ' ' :: 'n' :: ("ame".toList ++ '=' :: '"' :: (value ++ '"' :: more)) := by
    rw [hname, h]
    rfl
  have hfrom := valueFrom_marked hvalue (byteLength tag.content) more
  rw [← hrest] at hfrom
  cases hunescaped : Xml.unescape value with
  | error fault => simp only [Tag.value?, hfrom, hunescaped]
  | ok text => simp only [Tag.value?, hfrom, hunescaped]

/-- What the tag says its keyword is called is the name of the marker. -/
theorem name?_marked (h : t.StandsIn cs) (htext : t.text = markerLead ++ (written ++ '"' :: rest))
    (hwritten : '"' ∉ written) {name : String} (hname : t.name? = some name) :
    name = String.ofList (writtenName written) := by
  obtain ⟨more, hinside⟩ := inside_eq h.closed htext hwritten
  -- the slash of a tag that closes itself comes behind the value
  have hinside' : t.inside = (markerName ++ '"' :: written) ++ ['"'] ++ more := by
    rw [hinside]
    simp
  obtain ⟨others, hcontent⟩ : (markerName ++ '"' :: written) ++ ['"'] <+: t.tag.content := by
    rcases h.inside_cases with hcontent | hcontent
    · exact ⟨more, hinside'.symm.trans hcontent⟩
    · rcases List.prefix_concat_iff.mp ⟨more, hinside'.symm.trans hcontent⟩ with hwhole | hprefix
      · cases (List.append_inj' hwhole rfl).2
      · exact hprefix
  have hvalue : t.tag.content = markerName ++ '"' :: (written ++ '"' :: others) := by
    rw [← hcontent]
    simp
  rw [TagPlace.name?, value?_marked hvalue hwritten] at hname
  rw [writtenName]
  cases hunescaped : Xml.unescape written with
  | error fault => simp [hunescaped] at hname
  | ok text =>
    rw [hunescaped] at hname
    exact (Option.some.inj hname).symm

end Marked

/-! ## Placing by tags -/

section Places

variable {document before : List Char} {t t' : TagPlace}

theorem keywordTags_standIn (h : t ∈ keywordTags document) : t.StandsIn document := by
  obtain ⟨hstands, -⟩ := tagsFrom_spec [] (Xml.unmarked document)
  have hunmarked : Xml.unmarked document <:+ document := by
    rcases Xml.unmarked_cases document with hdocument | hdocument
    · rw [← hdocument]
    · exact ⟨['\uFEFF'], hdocument.symm⟩
  obtain ⟨htext, hclosed, hcases⟩ := hstands t (List.mem_of_mem_filter h)
  exact ⟨htext.trans hunmarked, hclosed, hcases⟩

/-- Of two keyword tags one comes behind the other. -/
theorem keywordTags_ordered (h : t ∈ keywordTags document) (h' : t' ∈ keywordTags document) (hne : t ≠ t') :
    t'.text <:+ t.rest ∨ t.text <:+ t'.rest := by
  obtain ⟨-, hpairwise⟩ := tagsFrom_spec [] (Xml.unmarked document)
  have hordered : (keywordTags document).Pairwise fun t t' => t'.text <:+ t.rest ∨ t.text <:+ t'.rest :=
    (hpairwise.sublist List.filter_sublist).imp Or.inl
  have : Std.Symm fun t t' : TagPlace => t'.text <:+ t.rest ∨ t.text <:+ t'.rest := ⟨fun _ _ => Or.symm⟩
  exact hordered.forall h h' hne

theorem rest_length_lt (t : TagPlace) : t.rest.length < t.text.length := by
  simp only [TagPlace.text, List.length_cons, List.length_append]
  omega

theorem keywordTags_eq_of_text (h : t ∈ keywordTags document) (h' : t' ∈ keywordTags document)
    (htext : t.text = t'.text) : t = t' := by
  by_contra hne
  have hlength := congrArg List.length htext
  rcases keywordTags_ordered h h' hne with hlater | hlater
  · have hle := hlater.length_le.trans_lt (rest_length_lt t)
    omega
  · have hle := hlater.length_le.trans_lt (rest_length_lt t')
    omega

/-- The keyword tags are written as markers, and no other text is. They give different names. -/
structure MarksKeywords (document : List Char) : Prop where
  marked : ∀ t ∈ keywordTags document, markerLead <+: t.text
  only : ∀ text, text <:+ document → markerLead <+: text → ∃ t ∈ keywordTags document, t.text = text
  distinct : ((keywordTags document).map (·.name?)).Nodup

instance : Decidable (MarksKeywords document) :=
  decidable_of_iff
    ((∀ t ∈ keywordTags document, markerLead <+: t.text) ∧
      (∀ text ∈ document.tails, markerLead <+: text → ∃ t ∈ keywordTags document, t.text = text) ∧
      ((keywordTags document).map (·.name?)).Nodup)
    ⟨fun ⟨hmarked, honly, hdistinct⟩ =>
        ⟨hmarked, fun text htext => honly text ((List.mem_tails _ _).mpr htext), hdistinct⟩,
      fun h => ⟨h.marked, fun text htext => h.only text ((List.mem_tails _ _).mp htext), h.distinct⟩⟩

/-- The markers that are found are the keyword tags, with their names. -/
theorem MarksKeywords.exists_tag (h : MarksKeywords document) {marker : Marker}
    (hmem : marker ∈ markers document) :
    ∃ t ∈ keywordTags document, ∃ before, document = before ++ t.text ∧ marker.offset = byteLength before ∧
      ∀ name, t.name? = some name → marker.name = name.toList := by
  obtain ⟨start, written, ⟨before, rest, hdocument, rfl, hwritten⟩, hoffset, hmarker⟩ := markedAt_of_mem hmem
  obtain ⟨t, ht, htext⟩ := h.only _ ⟨before, hdocument.symm⟩ (List.prefix_append markerLead _)
  refine ⟨t, ht, before, by rw [htext, hdocument], by rw [hoffset, Nat.zero_add], fun name hname => ?_⟩
  rw [hmarker, name?_marked (keywordTags_standIn ht) htext hwritten hname, String.toList_ofList]

/-- Every keyword tag is found. -/
theorem MarksKeywords.exists_marker (h : MarksKeywords document) (ht : t ∈ keywordTags document)
    (hdocument : document = before ++ t.text) :
    ∃ marker ∈ markers document, marker.offset = byteLength before := by
  obtain ⟨value, more, hinside, hvalue⟩ := exists_value (keywordTags_standIn ht).closed (h.marked t ht)
  have hdocument' := hdocument
  rw [text_eq hinside] at hdocument'
  have hfound : (∃ marker ∈ markers document, marker.offset = 0 + byteLength before) ∨
      BeginsWithin document before := found_or_within hdocument' (by simp)
  rcases hfound with ⟨marker, hmarker, hoffset⟩ | ⟨front, written, rest, hfront, hwritten, hbegin, hend⟩
  · exact ⟨marker, hmarker, by rw [hoffset, Nat.zero_add]⟩
  · -- the other marker is a keyword tag as well, and its value does not go on behind it
    obtain ⟨t', ht', htext⟩ := h.only _ ⟨front, hfront.symm⟩ (List.prefix_append markerLead _)
    obtain ⟨others, hinside'⟩ := inside_eq (keywordTags_standIn ht').closed htext hwritten
    rw [← htext] at hfront
    have hlength := congrArg List.length (hdocument.symm.trans hfront)
    have htext' := congrArg List.length (text_eq hinside')
    simp only [List.length_append, List.length_cons] at hlength htext' hend
    have hne : t ≠ t' := by
      rintro rfl
      omega
    rcases keywordTags_ordered ht ht' hne with hlater | hlater
    · have hlt := hlater.length_le.trans_lt (rest_length_lt t)
      omega
    · have hle := hlater.length_le
      omega

/-- The name of a keyword tag is looked up at its place. -/
theorem MarksKeywords.lastOffset?_eq (h : MarksKeywords document)
    (hnamed : ∀ t ∈ keywordTags document, ∃ name, t.name? = some name) (ht : t ∈ keywordTags document)
    {name : String} (hname : t.name? = some name) (hdocument : document = before ++ t.text) :
    lastOffset? name (markers document) = some (byteLength before) := by
  have hplace : ∀ marker ∈ markers document, marker.offset = byteLength before ↔ marker.name = name.toList := by
    intro marker hmarker
    obtain ⟨t', ht', before', hdocument', hoffset, hmarkerName⟩ := h.exists_tag hmarker
    obtain ⟨name', hname'⟩ := hnamed t' ht'
    have hsame := hdocument'.symm.trans hdocument
    rw [hoffset, hmarkerName name' hname', String.toList_inj]
    constructor
    · intro hoffset
      obtain ⟨-, htext⟩ := append_inj_of_byteLength hsame hoffset
      obtain rfl := keywordTags_eq_of_text ht' ht htext
      exact Option.some.inj (hname'.symm.trans hname)
    · rintro rfl
      obtain rfl := List.inj_on_of_nodup_map h.distinct ht' ht (hname'.trans hname.symm)
      rw [List.append_cancel_right hsame]
  obtain ⟨marker, hmarker, hoffset⟩ := h.exists_marker ht hdocument
  rw [← hoffset]
  exact lastOffset?_of_unique hmarker ((hplace marker hmarker).mp hoffset) fun other hother hsame =>
    ((hplace other hother).mpr hsame).trans hoffset.symm

end Places

/-! ## Keywords in their places -/

/-- A keyword tag of a document and the keyword that it begins, which stands where it does. -/
def PlacedAt (document : List Char) (keyword : Declaration) (t : TagPlace) : Prop :=
  t.name? = some keyword.name ∧ ∃ before position, document = before ++ t.text ∧
    keyword.position = some position ∧ position.IsAt document (byteLength before)

/-- Keywords with the names of the first keyword tags are placed at these. -/
theorem MarksKeywords.placed {document : List Char} (h : MarksKeywords document) {keywords : List Declaration}
    {others : List String}
    (hnames : (keywords.map (·.name) ++ others).map some = (keywordTags document).map (·.name?)) :
    List.Forall₂ (PlacedAt document) (place (LineIndex.ofText document) (markers document) keywords)
      ((keywordTags document).take (place (LineIndex.ofText document) (markers document) keywords).length) := by
  have hnamed : ∀ t ∈ keywordTags document, ∃ name, t.name? = some name := by
    intro t ht
    have hmem := List.mem_map_of_mem (f := (·.name?)) ht
    rw [← hnames] at hmem
    obtain ⟨name, -, hname⟩ := List.mem_map.mp hmem
    exact ⟨name, hname.symm⟩
  have hdistinct : (keywords.map (·.name)).Nodup := by
    have hnodup := h.distinct
    rw [← hnames] at hnodup
    exact hnodup.of_map.of_append_left
  have hfirst : List.Forall₂ (fun keyword t => some keyword.name = t.name?) keywords
      ((keywordTags document).take keywords.length) := by
    have hsame : (keywords.map (·.name)).map some =
        ((keywordTags document).take keywords.length).map (·.name?) := by
      rw [List.map_take, ← hnames, List.map_append, List.take_left' (by simp)]
    rwa [← List.forall₂_eq_eq_eq, List.forall₂_map_left_iff, List.forall₂_map_left_iff,
      List.forall₂_map_right_iff] at hsame
  rw [place_of_nodup hdistinct, List.length_map, List.forall₂_map_left_iff]
  obtain ⟨hlength, hzipped⟩ := List.forall₂_iff_zip.mp hfirst
  refine List.forall₂_iff_zip.mpr ⟨hlength, fun {keyword t} hmem => ?_⟩
  have ht := List.mem_of_mem_take (List.of_mem_zip hmem).2
  have hname := (hzipped hmem).symm
  obtain ⟨before, hdocument⟩ := (keywordTags_standIn ht).text_suffix
  refine ⟨hname, before, _, hdocument.symm, ?_, LineIndex.position_isAt document (byteLength before)⟩
  rw [h.lastOffset?_eq hnamed ht hname hdocument.symm, Option.map_some]

/-- A document that fits into 32 bits has its keywords where markers with their names stand. If it writes its
keyword tags, and no other text, as markers, and they have different names, then all keywords have positions,
each that of its own tag. The search for the markers comes to its end, and slices no character apart. -/
theorem positions_from_markers (document : List Char) (hsize : byteLength document < 2 ^ 32) {outline : Outline}
    (h : parse? document = some outline) :
    (∀ keyword ∈ outline.keywords, ∀ position, keyword.position = some position →
      ∃ offset written, MarkedAt document offset written ∧
        keyword.name = String.ofList (writtenName written) ∧ position.IsAt document offset ∧
        position.line < 2 ^ 32 ∧ position.column < 2 ^ 32) ∧
      (MarksKeywords document → List.Forall₂ (PlacedAt document) outline.keywords
        ((keywordTags document).take outline.keywords.length)) ∧
      ∀ rounds, document.length < rounds → scan document rounds 0 = some (markers document) := by
  obtain ⟨keywords, hkeywords, hunplaced, hnames⟩ := keywords_named h
  refine ⟨fun keyword hmem position hposition => ?_, fun hmarks => ?_, fun rounds hrounds => ?_⟩
  · rw [hkeywords] at hmem
    obtain ⟨offset, hoffset, rfl⟩ := exists_of_place hunplaced hmem hposition
    obtain ⟨marker, hmarker, hname, rfl⟩ := exists_of_lastOffset? hoffset
    obtain ⟨start, written, hmarked, hstart, hwritten⟩ := markedAt_of_mem hmarker
    rw [Nat.zero_add] at hstart
    subst hstart
    obtain ⟨hline, hcolumn⟩ := LineIndex.position_lt document (hmarked.le.trans_lt hsize)
    exact ⟨marker.offset, written, hmarked, by rw [← hwritten, hname, String.ofList_toList],
      LineIndex.position_isAt document marker.offset, hline, hcolumn⟩
  · rw [hkeywords]
    rcases hnames with rfl | ⟨unfinished, hnames⟩
    · exact .nil
    · exact hmarks.placed hnames
  · have hdocument : document = [] ++ document := rfl
    exact scan_eq hdocument hrounds

/-- A document with a keyword on each of two lines, one of them with a reference in its name. -/
def twoKeywords : List Char :=
  "<keywordspec>\n<kw name=\"a&amp;b\"></kw>\r\n<kw name=\"c\"/></keywordspec>".toList

theorem positions_from_markers_twoKeywords :
    byteLength twoKeywords < 2 ^ 32 ∧ MarksKeywords twoKeywords ∧ ∃ outline, parse? twoKeywords = some outline ∧
      outline.keywords.map (fun keyword => (keyword.name, keyword.position)) =
        [("a&b", some ⟨1, 0⟩), ("c", some ⟨2, 0⟩)] ∧
      List.Forall₂ (PlacedAt twoKeywords) outline.keywords
        ((keywordTags twoKeywords).take outline.keywords.length) ∧
      scan twoKeywords 80 0 = some [⟨14, "a&b".toList⟩, ⟨40, "c".toList⟩] := by
  have hsize : byteLength twoKeywords < 2 ^ 32 := by decide
  have hmarks : MarksKeywords twoKeywords := by decide +kernel
  have hread : (parse? twoKeywords).map (fun outline =>
      outline.keywords.map fun keyword => (keyword.name, keyword.position)) =
        some [("a&b", some ⟨1, 0⟩), ("c", some ⟨2, 0⟩)] := by decide +kernel
  have hmarkers : markers twoKeywords = [⟨14, "a&b".toList⟩, ⟨40, "c".toList⟩] := by decide +kernel
  obtain ⟨outline, houtline, hkeywords⟩ := Option.map_eq_some_iff.mp hread
  obtain ⟨-, hplaced, hscan⟩ := positions_from_markers twoKeywords hsize houtline
  exact ⟨hsize, hmarks, outline, houtline, hkeywords, hplaced hmarks, hmarkers ▸ hscan 80 (by decide)⟩

end KeywordIndex.Libdoc
