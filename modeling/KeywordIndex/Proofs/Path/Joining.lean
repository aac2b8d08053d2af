import KeywordIndex.Path.Basic
import KeywordIndex.Proofs.Path.Containment

namespace KeywordIndex

open Text NormalPath

/-! # Names and paths

A name that stands for an entry of a directory adds one component to a path (`components_join`). An absolute
path of such names has one normal form, whatever its spelling (`normalize_of_components`), so its key tells
its names up to their case, and what holds a directory holds its entries (`holds_of_isPrefix`). Two normal
paths with the same components are written alike (`normalize_eq_of_sameAs`).
-/

/-- A name that stands for an entry wherever it is written. -/
structure PlainName (name : String) : Prop where
  segment : PlainSegment name.toList
  ne_parent : name.toList ≠ parentSegment
  no_backslash : '\\' ∉ name.toList

instance (s : Segment) : Decidable (PlainSegment s) :=
  decidable_of_iff (s ≠ [] ∧ s ≠ currentSegment ∧ '/' ∉ s)
    ⟨fun ⟨hnil, hcurrent, hslash⟩ => ⟨hnil, hcurrent, hslash⟩,
      fun h => ⟨h.ne_nil, h.ne_current, h.no_slash⟩⟩

instance (name : String) : Decidable (PlainName name) :=
  decidable_of_iff (PlainSegment name.toList ∧ name.toList ≠ parentSegment ∧ '\\' ∉ name.toList)
    ⟨fun ⟨hsegment, hparent, hbackslash⟩ => ⟨hsegment, hparent, hbackslash⟩,
      fun h => ⟨h.segment, h.ne_parent, h.no_backslash⟩⟩

namespace Component

@[simp] theorem text_ofSegment (s : Segment) : (ofSegment s).text.toList = s := by
  unfold ofSegment
  split
  · next hparent => simp [hparent, text, parentSegment]
  · simp [text]

/-- The segments are read back from their components. -/
theorem map_text_ofSegment (segments : List Segment) :
    (segments.map ofSegment).map (fun c => c.text.toList) = segments := by
  rw [List.map_map]
  exact (List.map_congr_left fun s _ => text_ofSegment s).trans (List.map_id segments)

theorem ofSegment_of_plain {name : String} (h : PlainName name) :
    ofSegment name.toList = .name name := by
  rw [ofSegment, if_neg h.ne_parent, String.ofList_toList]

/-- The component that is written as the text. -/
def ofText (text : String) : Component :=
  if text = "/" then root else if text = "." then current else ofSegment text.toList

theorem text_ofText (text : String) : (ofText text).text = text := by
  unfold ofText
  split_ifs with hroot hcurrent
  · exact hroot.symm
  · exact hcurrent.symm
  · rw [← String.toList_inj, text_ofSegment]

theorem ofText_text_ofSegment {s : Segment} (h : PlainSegment s) : ofText (ofSegment s).text = ofSegment s := by
  have hroot : (ofSegment s).text ≠ "/" := by
    intro htext
    have hs := congrArg String.toList htext
    rw [text_ofSegment] at hs
    exact h.no_slash (hs ▸ List.mem_singleton_self '/')
  have hcurrent : (ofSegment s).text ≠ "." := by
    intro htext
    have hs := congrArg String.toList htext
    rw [text_ofSegment] at hs
    exact h.ne_current hs
  rw [ofText, if_neg hroot, if_neg hcurrent, text_ofSegment]

/-! ## Components of a path

The characters of a path may be bytes, so the slash, the dot and what a segment is read as are left open.
-/

section Written

variable {α : Type} [DecidableEq α] {slash dot : α} {step : List α → Component}
variable {path before rest s : List α}

/-- What the components of a path begin with before its segments. -/
def lead (slash dot : α) (path : List α) : List Component :=
  if path.head? = some slash then [.root]
  else if (split slash path).head? = some [dot] then [.current]
  else []

/-- A segment that names something, alone between its slashes. -/
structure Names (slash dot : α) (s : List α) : Prop where
  ne_nil : s ≠ []
  ne_dot : s ≠ [dot]
  no_slash : slash ∉ s

theorem listOf_eq (path : List α) : listOf slash dot step path =
    lead slash dot path ++ ((split slash path).filter fun s => s ≠ [] ∧ s ≠ [dot]).map step := by
  unfold listOf lead
  simp only
  split
  · rfl
  · split <;> rfl

theorem lead_cases (slash dot : α) (path : List α) :
    lead slash dot path = [] ∨ lead slash dot path = [.root] ∨ lead slash dot path = [.current] := by
  unfold lead
  split_ifs <;> simp

theorem head?_split_append (slash : α) (before rest : List α) :
    (split slash (before ++ slash :: rest)).head? = (split slash before).head? := by
  rw [split_append]
  exact List.head?_append_of_ne_nil _ (splitWhere_ne_nil _ _)

/-- What follows a slash does not count for the beginning. -/
theorem lead_append_slash (before rest other : List α) :
    lead slash dot (before ++ slash :: rest) = lead slash dot (before ++ slash :: other) := by
  have hhead : (before ++ slash :: rest).head? = (before ++ slash :: other).head? := by
    cases before <;> rfl
  unfold lead
  rw [hhead, head?_split_append, head?_split_append]

theorem lead_append_of_ne_nil (h : before ≠ []) (rest : List α) :
    lead slash dot (before ++ slash :: rest) = lead slash dot before := by
  unfold lead
  rw [List.head?_append_of_ne_nil _ h, head?_split_append]

theorem listOf_nil : listOf slash dot step [] = [] := by
  simp [listOf, split, splitWhere]

/-- A segment alone is one step. -/
theorem listOf_of_names (h : Names slash dot s) : listOf slash dot step s = [step s] := by
  have hslash : s.head? ≠ some slash := fun hhead => h.no_slash (List.mem_of_head? hhead)
  rw [listOf_eq, lead, if_neg hslash, split_of_not_mem h.no_slash, if_neg (by simp [h.ne_dot]),
    List.filter_cons_of_pos (by simp [h.ne_nil, h.ne_dot])]
  rfl

theorem filter_split_nil (slash dot : α) :
    (split slash ([] : List α)).filter (fun s => s ≠ [] ∧ s ≠ [dot]) = [] := by
  simp [split, splitWhere]

/-- The segments after a slash are read on their own. -/
theorem listOf_append_slash (h : Names slash dot s) (before : List α) :
    listOf slash dot step (before ++ slash :: s) =
      listOf slash dot step (before ++ [slash]) ++ [step s] := by
  rw [listOf_eq, listOf_eq, lead_append_slash before s [], split_append, split_append,
    split_of_not_mem h.no_slash, List.filter_append, List.filter_append, filter_split_nil,
    List.append_nil, List.filter_cons_of_pos (by simp [h.ne_nil, h.ne_dot]), List.filter_nil,
    List.map_append, List.map_singleton, List.append_assoc]

/-- A slash at the end adds nothing. -/
theorem listOf_append_singleton (h : before ≠ []) :
    listOf slash dot step (before ++ [slash]) = listOf slash dot step before := by
  rw [listOf_eq, listOf_eq, lead_append_of_ne_nil h, split_append, List.filter_append,
    filter_split_nil, List.append_nil]

/-- The path of an entry of a directory. -/
def joined (slash : α) (directory name : List α) : List α :=
  if directory = [] ∨ directory.getLast? = some slash then directory ++ name
  else directory ++ slash :: name

/-- What is joined to a path as one segment is one step more. -/
theorem listOf_joined (h : Names slash dot s) (directory : List α) :
    listOf slash dot step (joined slash directory s) = listOf slash dot step directory ++ [step s] := by
  unfold joined
  split
  · next hopen =>
    rcases hopen with rfl | hlast
    · rw [List.nil_append, listOf_of_names h, listOf_nil, List.nil_append]
    · -- the slash at the end separates
      obtain ⟨outer, rfl⟩ := List.getLast?_eq_some_iff.mp hlast
      rw [List.append_assoc, List.singleton_append, listOf_append_slash h]
  · next hclosed =>
    rw [listOf_append_slash h, listOf_append_singleton (not_or.mp hclosed).1]

/-- Only the first component of a path can be the root or the current directory; every other one is written as
a segment. -/
theorem listOf_cases {directory after : List Component} {c : Component}
    (h : listOf slash dot step path = directory ++ c :: after) :
    directory = [] ∧ (c = .root ∨ c = .current) ∨ ∃ s, Names slash dot s ∧ c = step s := by
  have hsegment : ∀ d ∈ ((split slash path).filter fun s => s ≠ [] ∧ s ≠ [dot]).map step,
      ∃ s, Names slash dot s ∧ d = step s := by
    intro d hd
    obtain ⟨s, hs, rfl⟩ := List.mem_map.mp hd
    obtain ⟨hs, hkept⟩ := List.mem_filter.mp hs
    rw [decide_eq_true_eq] at hkept
    exact ⟨s, ⟨hkept.1, hkept.2, fun hslash => (mem_split hs hslash).2 rfl⟩, rfl⟩
  rw [listOf_eq] at h
  rcases lead_cases slash dot path with hlead | hlead | hlead
  · rw [hlead, List.nil_append] at h
    exact Or.inr (hsegment c (h ▸ List.mem_append_right _ List.mem_cons_self))
  all_goals
    rw [hlead, List.singleton_append] at h
    cases directory with
    | nil =>
      obtain ⟨rfl, -⟩ := List.cons.inj h
      exact Or.inl ⟨rfl, by simp⟩
    | cons d directory =>
      obtain ⟨-, hrest⟩ := List.cons.inj h
      exact Or.inr (hsegment c (hrest ▸ List.mem_append_right _ List.mem_cons_self))

/-- Only the empty path has no components. -/
theorem eq_nil_of_listOf (h : listOf slash dot step path = []) : path = [] := by
  rw [listOf_eq, List.append_eq_nil_iff, List.map_eq_nil_iff] at h
  obtain ⟨hlead, hsegments⟩ := h
  unfold lead at hlead
  split_ifs at hlead with habsolute hcurrent
  cases path with
  | nil => rfl
  | cons c rest =>
    -- the first segment would name something
    exfalso
    have hc : c ≠ slash := by simpa using habsolute
    obtain ⟨piece, pieces, hsplit⟩ : ∃ piece pieces, split slash (c :: rest) = (c :: piece) :: pieces := by
      rw [split, splitWhere, if_neg (by simpa using hc)]
      cases hrest : splitWhere (· == slash) rest with
      | nil => exact absurd hrest (splitWhere_ne_nil _ _)
      | cons piece pieces => exact ⟨piece, pieces, rfl⟩
    have hne : c :: piece ≠ [dot] := by simpa [hsplit] using hcurrent
    have hkept := List.filter_eq_nil_iff.mp hsegments (c :: piece) (hsplit ▸ List.mem_cons_self)
    exact hkept (decide_eq_true ⟨List.cons_ne_nil _ _, hne⟩)

end Written

end Component

namespace Path

/-! ## Entries of a path -/

theorem names_iff {s : Segment} : Component.Names '/' '.' s ↔ PlainSegment s :=
  ⟨fun h => ⟨h.ne_nil, h.ne_dot, h.no_slash⟩, fun h => ⟨h.ne_nil, h.ne_current, h.no_slash⟩⟩

theorem components_eq (p : Path) : p.components =
    Component.lead '/' '.' p.text.toList ++ (segmentsOf p.text.toList).map Component.ofSegment :=
  Component.listOf_eq _

theorem segmentsOf_plain {s : Segment} (h : PlainSegment s) : segmentsOf s = [s] := by
  rw [segmentsOf, split_of_not_mem h.no_slash, filter_plain (by simpa using h)]

/-- A name without slashes is joined to the text of a path. -/
theorem toList_join (p : Path) {name : String} (h : '/' ∉ name.toList) :
    (p.join ⟨name⟩).text.toList = Component.joined '/' p.text.toList name.toList := by
  have hrelative : isAbsolute ⟨name⟩ = false := by
    rw [isAbsolute, beq_eq_false_iff_ne]
    exact fun hhead => h (List.mem_of_head? hhead)
  rw [join, hrelative]
  simp only [Bool.false_eq_true, if_false, Component.joined, Bool.or_eq_true, beq_iff_eq,
    String.isEmpty_iff, ← String.toList_eq_nil_iff]
  split <;> simp

/-- What is joined to a path as one segment is one step more. -/
theorem components_join_segment (p : Path) {name : String} (h : PlainSegment name.toList) :
    (p.join ⟨name⟩).components = p.components ++ [Component.ofSegment name.toList] := by
  rw [components, toList_join p h.no_slash]
  exact Component.listOf_joined (names_iff.mpr h) _

/-- An entry of a directory is one step below it. -/
theorem components_join (p : Path) {name : String} (h : PlainName name) :
    (p.join ⟨name⟩).components = p.components ++ [.name name] := by
  rw [components_join_segment p h.segment, Component.ofSegment_of_plain h]

/-! ## Absolute paths -/

/-- The absolute path with the given names. -/
def ofNames (names : List String) : Path := ⟨String.ofList ('/' :: Text.join ['/'] (names.map String.toList))⟩

variable {p : Path} {names : List String}

theorem components_ofNames (h : ∀ name ∈ names, PlainName name) :
    (ofNames names).components = .root :: names.map .name := by
  have hsegments : segmentsOf ('/' :: Text.join ['/'] (names.map String.toList)) =
      names.map String.toList := by
    have hcut := segmentsOf_append [] (Text.join ['/'] (names.map String.toList))
    rw [List.nil_append, segmentsOf_join (by simpa using fun name hname => (h name hname).segment)] at hcut
    exact hcut
  rw [components_eq, ofNames, String.toList_ofList, hsegments, List.map_map]
  exact congrArg (Component.root :: ·)
    (List.map_congr_left fun name hname => Component.ofSegment_of_plain (h name hname))

theorem entered_names (h : ∀ name ∈ names, PlainName name) :
    Entered true (names.map String.toList).reverse where
  plain := by
    intro s hs
    obtain ⟨name, hname, rfl⟩ := List.mem_map.mp (List.mem_reverse.mp hs)
    exact (h name hname).segment
  no_backslash := by
    intro s hs
    obtain ⟨name, hname, rfl⟩ := List.mem_map.mp (List.mem_reverse.mp hs)
    exact (h name hname).no_backslash
  parents := by
    refine List.pairwise_of_forall_mem_list fun s hs t _ hparent => ?_
    obtain ⟨name, hname, rfl⟩ := List.mem_map.mp (List.mem_reverse.mp hs)
    exact absurd hparent (h name hname).ne_parent
  no_parent := by
    intro _ hs
    obtain ⟨name, hname, hparent⟩ := List.mem_map.mp (List.mem_reverse.mp hs)
    exact (h name hname).ne_parent hparent

/-- The text of an absolute path with the given names begins with a slash and has their segments. -/
theorem segmentsOf_of_components (hp : p.components = .root :: names.map .name) :
    p.text.toList.head? = some '/' ∧ segmentsOf p.text.toList = names.map String.toList := by
  rw [components_eq] at hp
  have hroot : Component.lead '/' '.' p.text.toList = [.root] := by
    unfold Component.lead at hp ⊢
    split at hp
    · next habsolute => rw [if_pos habsolute]
    · -- no segment is written as the root
      exfalso
      split at hp
      · cases hp
      · cases hsegments : segmentsOf p.text.toList with
        | nil => simp [hsegments] at hp
        | cons s rest =>
          rw [hsegments] at hp
          have hfirst : Component.ofSegment s = .root := by simpa using List.head_eq_of_cons_eq hp
          unfold Component.ofSegment at hfirst
          split at hfirst <;> cases hfirst
  have habsolute : p.text.toList.head? = some '/' := by
    unfold Component.lead at hroot
    split at hroot
    · assumption
    · split at hroot <;> cases hroot
  refine ⟨habsolute, ?_⟩
  rw [hroot, List.singleton_append, List.cons_eq_cons] at hp
  have htexts := congrArg (List.map fun c : Component => c.text.toList) hp.2
  have hread : (fun c : Component => c.text.toList) ∘ Component.ofSegment = id :=
    funext Component.text_ofSegment
  rw [List.map_map, List.map_map, hread, List.map_id] at htexts
  exact htexts

/-- An absolute path of plain names is normalized to the one way of writing it. -/
theorem normalize_of_components (h : ∀ name ∈ names, PlainName name)
    (hp : p.components = .root :: names.map .name) : p.normalize = ofNames names := by
  obtain ⟨habsolute, hsegments⟩ := segmentsOf_of_components hp
  have hbackslash : '\\' ∉ p.text.toList := by
    intro hc
    rw [← join_split '/' p.text.toList] at hc
    rcases mem_join hc with hslash | ⟨piece, hpiece, hmem⟩
    · exact absurd hslash (by decide)
    · -- pieces that name nothing have no backslash either
      by_cases hkept : piece ≠ [] ∧ piece ≠ currentSegment
      · have hsegment : piece ∈ segmentsOf p.text.toList :=
          List.mem_filter.mpr ⟨hpiece, by simpa using hkept⟩
        rw [hsegments] at hsegment
        obtain ⟨name, hname, rfl⟩ := List.mem_map.mp hsegment
        exact (h name hname).no_backslash hmem
      · rcases not_and_or.mp hkept with hnil | hcurrent
        · rw [not_not.mp hnil] at hmem
          cases hmem
        · rw [not_not.mp hcurrent] at hmem
          exact absurd hmem (by decide)
  have hunified : p.text.toList.map unifySlash = p.text.toList := map_unifySlash_of_notMem hbackslash
  have hnormal : ofText p.text.toList = ⟨true, names.map String.toList⟩ := by
    have hentered := foldl_enter (entered_names h)
    unfold segmentsOf at hsegments
    simp only [ofText, ofSegments, hunified, habsolute, beq_self_eq_true]
    rw [foldl_enter_filter, hsegments, hentered, List.reverse_reverse]
  rw [normalize, normalizeText, hnormal]
  rfl

theorem key_of_components (h : ∀ name ∈ names, PlainName name)
    (hp : p.components = .root :: names.map .name) : p.key = (ofNames names).key := by
  rw [← normalize_of_components h hp, key_normalize]

/-- The key of an absolute path has its names in lowercase. -/
theorem segments_key_ofNames (h : ∀ name ∈ names, PlainName name) :
    (ofNames names).key.isAbsolute = true ∧
      (ofNames names).key.segments = names.map fun name => lower name.toList := by
  have hplain : ∀ s ∈ (names.map String.toList).map lower, PlainSegment s := by
    intro s hs
    obtain ⟨t, ht, rfl⟩ := List.mem_map.mp hs
    obtain ⟨name, hname, rfl⟩ := List.mem_map.mp ht
    exact (h name hname).segment.lower
  have hcanonical : Canonical ⟨true, names.map String.toList⟩ := entered_names h
  have htext : (ofNames names).key.text.toList =
      render ⟨true, (names.map String.toList).map lower⟩ := by
    have hread := ofText_render hcanonical
    rw [← lower_render ⟨true, names.map String.toList⟩]
    simp only [key, Key.ofText, String.toList_ofList, ofNames, normalizeText]
    exact congrArg lower (congrArg render hread)
  rw [Key.isAbsolute, Key.segments, htext, head?_render hplain, segmentsOf_render hplain,
    List.map_map]
  exact ⟨rfl, rfl⟩

/-- What holds a directory holds what is below it. -/
theorem holds_of_isPrefix {outer : List String} {directory : Key} (h : ∀ name ∈ names, PlainName name)
    (hbegins : outer <+: names) (hholds : directory.Holds (ofNames outer).key) :
    directory.Holds (ofNames names).key := by
  obtain ⟨habsolute, hsegments⟩ := segments_key_ofNames h
  obtain ⟨houter, hbefore⟩ := segments_key_ofNames fun name hname => h name (hbegins.subset hname)
  unfold Key.Holds at hholds ⊢
  rw [houter, hbefore] at hholds
  rw [habsolute, hsegments]
  exact ⟨hholds.1, hholds.2.trans (hbegins.map _)⟩

/-- An absolute path is within every directory that holds it. -/
theorem isWithin_of_absolute (directory : Path) (h : p.key.isAbsolute = true) :
    p.key.isWithin directory.key = true ↔ directory.key.Holds p.key := by
  rw [Key.isWithin_iff]
  refine ⟨And.left, fun hholds => ⟨hholds, fun hcurrent => ?_⟩⟩
  -- the current directory holds no absolute path
  have habsolute := hholds.1
  rw [hcurrent, h] at habsolute
  exact absurd habsolute (by decide)

/-! ## Normal paths -/

/-- A step that a segment is read as. -/
theorem ofSegment_ne (s : Segment) : Component.ofSegment s ≠ .root ∧ Component.ofSegment s ≠ .current := by
  unfold Component.ofSegment
  split <;> simp

/-- The components of a normal path tell whether it is absolute, and its segments. -/
theorem components_normalize (p : Path) :
    (p.normalize.components.head? = some .root ↔ (ofText p.text.toList).absolute = true) ∧
      (p.normalize.components.filter fun c => c ≠ .root ∧ c ≠ .current) =
        (ofText p.text.toList).segments.map Component.ofSegment := by
  have hplain := (canonical_ofText p.text.toList).plain
  generalize hform : ofText p.text.toList = form at hplain
  have htext : p.normalize.text.toList = form.render := by
    rw [normalize, String.toList_ofList, normalizeText, hform]
  have hsteps : (form.segments.map Component.ofSegment).filter (fun c => c ≠ .root ∧ c ≠ .current) =
      form.segments.map Component.ofSegment := by
    refine List.filter_eq_self.mpr fun c hc => ?_
    obtain ⟨s, -, rfl⟩ := List.mem_map.mp hc
    simpa using ofSegment_ne s
  have hfirst : (form.segments.map Component.ofSegment).head? ≠ some .root := fun h => by
    obtain ⟨s, -, hs⟩ := List.mem_map.mp (List.mem_of_head? h)
    exact (ofSegment_ne s).1 hs
  have hslash : form.render.head? = some '/' ↔ form.absolute = true := by
    rw [← beq_iff_eq, head?_render hplain]
  rw [components_eq, htext, segmentsOf_render hplain, Component.lead, List.filter_append, hsteps]
  simp only [hslash]
  cases form.absolute with
  | true => simp
  | false =>
    simp only [Bool.false_eq_true, if_false, iff_false]
    split
    · simp
    · simpa using hfirst

/-- Normal paths that name the same place are written alike. -/
theorem normalize_eq_of_sameAs {p q : Path} (h : p.normalize.sameAs q.normalize = true) :
    p.normalize = q.normalize := by
  have hcomponents : p.normalize.components = q.normalize.components := by simpa [sameAs] using h
  obtain ⟨hp, hpsegments⟩ := components_normalize p
  obtain ⟨hq, hqsegments⟩ := components_normalize q
  rw [hcomponents] at hp hpsegments
  have habsolute := Bool.eq_iff_iff.mpr (hp.symm.trans hq)
  have hsegments : (ofText p.text.toList).segments = (ofText q.text.toList).segments := by
    have hmap := congrArg (List.map fun c : Component => c.text.toList) (hpsegments.symm.trans hqsegments)
    rwa [Component.map_text_ofSegment, Component.map_text_ofSegment] at hmap
  have hform : ofText p.text.toList = ofText q.text.toList := by
    cases hp : ofText p.text.toList
    cases hq : ofText q.text.toList
    simp_all
  rw [normalize, normalize, normalizeText, normalizeText, hform]

end Path

end KeywordIndex
