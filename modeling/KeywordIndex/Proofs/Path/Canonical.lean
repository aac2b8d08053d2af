import KeywordIndex.Path.Key
import KeywordIndex.Proofs.Text.Separator
import Mathlib.Data.List.Induction

namespace KeywordIndex

open Text

/-! # Normal forms are canonical

The segments of a normal form are names without slashes, and `..` stands only at the front of a relative
one. Such a form is written in one way and read back as itself, so normalizing twice is normalizing once
(`normalize_normalize`) and a path has the key of its normal form (`key_normalize`).
-/

/-- A segment that entering a directory does not drop: it is not empty, not `.`, and has no slash. -/
structure PlainSegment (s : Segment) : Prop where
  ne_nil : s ≠ []
  ne_current : s ≠ currentSegment
  no_slash : '/' ∉ s

namespace NormalPath

/-! ## Entering a segment -/

theorem enter_of_idle {absolute : Bool} {above : List Segment} {s : Segment}
    (h : s = [] ∨ s = currentSegment) : enter absolute above s = above := by
  unfold enter
  rw [if_pos h]

theorem enter_of_name {absolute : Bool} {above : List Segment} {s : Segment}
    (hkept : ¬ (s = [] ∨ s = currentSegment)) (hparent : s ≠ parentSegment) :
    enter absolute above s = s :: above := by
  unfold enter
  rw [if_neg hkept, if_neg hparent]

/-- A `..` leaves the name that was entered last. -/
theorem enter_parent_cons {absolute : Bool} {outer : List Segment} {t : Segment}
    (ht : t ≠ parentSegment) : enter absolute (t :: outer) parentSegment = outer := by
  unfold enter
  rw [if_neg (by decide), if_pos rfl]
  exact if_neg ht

theorem enter_parent_parent {absolute : Bool} {outer : List Segment} :
    enter absolute (parentSegment :: outer) parentSegment = parentSegment :: parentSegment :: outer := by
  unfold enter
  rw [if_neg (by decide), if_pos rfl]
  exact if_pos rfl

/-- Segments as they stand in a normal form, innermost first: plain, without backslashes, and outside of a
`..` there is only `..`, which no absolute form has. -/
structure Entered (absolute : Bool) (above : List Segment) : Prop where
  plain : ∀ s ∈ above, PlainSegment s
  no_backslash : ∀ s ∈ above, '\\' ∉ s
  parents : above.Pairwise fun inner outer => inner = parentSegment → outer = parentSegment
  no_parent : absolute = true → parentSegment ∉ above

theorem entered_nil (absolute : Bool) : Entered absolute [] where
  plain := by simp
  no_backslash := by simp
  parents := List.Pairwise.nil
  no_parent := by simp

theorem plainSegment_parent : PlainSegment parentSegment where
  ne_nil := by decide
  ne_current := by decide
  no_slash := by decide

theorem Entered.tail {absolute : Bool} {inner : Segment} {outer : List Segment}
    (h : Entered absolute (inner :: outer)) : Entered absolute outer where
  plain := fun s hs => h.plain s (List.mem_cons_of_mem _ hs)
  no_backslash := fun s hs => h.no_backslash s (List.mem_cons_of_mem _ hs)
  parents := (List.pairwise_cons.mp h.parents).2
  no_parent := fun ha hs => h.no_parent ha (List.mem_cons_of_mem _ hs)

/-- A plain segment may be put inside, and `..` if outside of it there is only `..`. -/
theorem Entered.cons {absolute : Bool} {above : List Segment} (h : Entered absolute above)
    {s : Segment} (hplain : PlainSegment s) (hbackslash : '\\' ∉ s)
    (hparents : s = parentSegment → ∀ outer ∈ above, outer = parentSegment)
    (habsolute : absolute = true → s ≠ parentSegment) : Entered absolute (s :: above) where
  plain := by
    intro t ht
    rcases List.mem_cons.mp ht with rfl | ht
    · exact hplain
    · exact h.plain t ht
  no_backslash := by
    intro t ht
    rcases List.mem_cons.mp ht with rfl | ht
    · exact hbackslash
    · exact h.no_backslash t ht
  parents := List.pairwise_cons.mpr ⟨fun outer houter e => hparents e outer houter, h.parents⟩
  no_parent := by
    intro ha ht
    rcases List.mem_cons.mp ht with e | ht
    · exact habsolute ha e.symm
    · exact h.no_parent ha ht

/-- Entering a segment keeps the form. -/
theorem Entered.enter {absolute : Bool} {above : List Segment} (h : Entered absolute above)
    {s : Segment} (hslash : '/' ∉ s) (hbackslash : '\\' ∉ s) :
    Entered absolute (enter absolute above s) := by
  unfold NormalPath.enter
  split
  · exact h
  · next hkept =>
    rw [not_or] at hkept
    split
    · -- `..` at the front is dropped in an absolute form and stays in a relative one
      split
      · split
        · exact entered_nil absolute
        · next habsolute =>
          exact (entered_nil absolute).cons plainSegment_parent (by decide) (by simp)
            fun ha => absurd ha habsolute
      · next inner outer =>
        split
        · next hinner =>
          -- outside of the new `..` stands a `..`, and outside of that only `..`
          refine h.cons plainSegment_parent (by decide) (fun _ t ht => ?_)
            fun ha => absurd (hinner ▸ List.mem_cons_self) (h.no_parent ha)
          rcases List.mem_cons.mp ht with rfl | ht
          · exact hinner
          · exact (List.pairwise_cons.mp h.parents).1 t ht hinner
        · exact h.tail
    · next hparent =>
      -- a name goes inside of everything
      exact h.cons ⟨hkept.1, hkept.2, hslash⟩ hbackslash (fun e => absurd e hparent) fun _ => hparent

/-- What is canonical: the segments, read backwards, are as entering leaves them. -/
def Canonical (p : NormalPath) : Prop := Entered p.absolute p.segments.reverse

/-- Every text has a canonical normal form. -/
theorem canonical_ofText (text : List Char) : (ofText text).Canonical := by
  have general : ∀ (segments above : List Segment),
      (∀ s ∈ segments, '/' ∉ s ∧ '\\' ∉ s) →
      ∀ absolute, Entered absolute above → Entered absolute (segments.foldl (enter absolute) above) := by
    intro segments
    induction segments with
    | nil => exact fun _ _ _ h => h
    | cons s rest ih =>
      intro above hs absolute h
      exact ih _ (fun t ht => hs t (by simp [ht])) absolute
        (h.enter (hs s (by simp)).1 (hs s (by simp)).2)
  unfold Canonical ofText ofSegments
  rw [List.reverse_reverse]
  refine general _ [] (fun s hs => ⟨fun hmem => (mem_split hs hmem).2 rfl, fun hmem => ?_⟩) _
    (entered_nil _)
  obtain ⟨c, -, hc⟩ := List.mem_map.mp (mem_split hs hmem).1
  unfold unifySlash at hc
  split at hc
  · exact absurd hc (by decide)
  · next hne => exact hne hc

/-- Whether a text begins with a slash of either kind. -/
def beginsWithSlash (text : List Char) : Bool := text.head? == some '/' || text.head? == some '\\'

/-- The normal form of a text is absolute if the text begins with a slash of either kind. -/
theorem absolute_ofText (text : List Char) : (ofText text).absolute = beginsWithSlash text := by
  cases text with
  | nil => rfl
  | cons c rest =>
    change ((unifySlash c :: rest.map unifySlash).head? == some '/') = _
    unfold unifySlash beginsWithSlash
    split
    · next hc => simp [hc]
    · next hc => simp [hc]

/-! ## Reading back -/

/-- The segments of a text that name something. -/
def segmentsOf (text : List Char) : List Segment :=
  (split '/' text).filter fun s => s ≠ [] ∧ s ≠ currentSegment

theorem segmentsOf_append (before rest : List Char) :
    segmentsOf (before ++ '/' :: rest) = segmentsOf before ++ segmentsOf rest := by
  rw [segmentsOf, split_append, List.filter_append]
  rfl

/-- Segments that name nothing are not entered. -/
theorem foldl_enter_filter (absolute : Bool) (segments above : List Segment) :
    segments.foldl (enter absolute) above =
      (segments.filter fun s => s ≠ [] ∧ s ≠ currentSegment).foldl (enter absolute) above := by
  induction segments generalizing above with
  | nil => rfl
  | cons s rest ih =>
    rw [List.foldl_cons, ih]
    by_cases hs : s = [] ∨ s = currentSegment
    · rw [enter_of_idle hs, List.filter_cons_of_neg]
      simpa using fun h => hs.resolve_left h
    · rw [List.filter_cons_of_pos, List.foldl_cons]
      simpa using not_or.mp hs

/-- Entering the segments of a canonical form one by one gathers them. -/
theorem foldl_enter {absolute : Bool} {segments : List Segment}
    (h : Entered absolute segments.reverse) :
    segments.foldl (enter absolute) [] = segments.reverse := by
  -- the last segment is the innermost, and is entered when all others have been gathered
  induction segments using List.reverseRecOn with
  | nil => rfl
  | append_singleton rest s ih =>
    rw [List.reverse_append, List.reverse_singleton, List.singleton_append] at h
    have hs := h.plain s (by simp)
    rw [List.foldl_append, ih h.tail, List.reverse_append, List.reverse_singleton,
      List.singleton_append, List.foldl_cons, List.foldl_nil]
    by_cases hparent : s = parentSegment
    · -- outside of a `..` there is only `..`, and in an absolute form there is none
      have houter := (List.pairwise_cons.mp h.parents).1
      subst hparent
      cases hrest : rest.reverse with
      | nil =>
        cases absolute with
        | true => exact absurd List.mem_cons_self (h.no_parent rfl)
        | false => rfl
      | cons inner outer =>
        obtain rfl := houter inner (by simp [hrest]) rfl
        exact enter_parent_parent
    · exact enter_of_name (by simp [hs.ne_nil, hs.ne_current]) hparent

theorem filter_plain {segments : List Segment} (h : ∀ s ∈ segments, PlainSegment s) :
    segments.filter (fun s => s ≠ [] ∧ s ≠ currentSegment) = segments :=
  List.filter_eq_self.mpr fun s hs => by simp [(h s hs).ne_nil, (h s hs).ne_current]

theorem plainSegment_of_mem_segmentsOf {text : List Char} {s : Segment} (h : s ∈ segmentsOf text) :
    PlainSegment s := by
  obtain ⟨hs, hkept⟩ := List.mem_filter.mp h
  rw [decide_eq_true_eq] at hkept
  exact ⟨hkept.1, hkept.2, fun hslash => (mem_split hs hslash).2 rfl⟩

theorem segmentsOf_join {segments : List Segment} (h : ∀ s ∈ segments, PlainSegment s) :
    segmentsOf (join ['/'] segments) = segments := by
  cases segments with
  | nil => rfl
  | cons s rest =>
    rw [segmentsOf, split_join (by simp) fun t ht => (h t ht).no_slash, filter_plain h]

theorem render_eq (p : NormalPath) :
    p.render = if p.absolute then '/' :: join ['/'] p.segments
      else if join ['/'] p.segments = [] then currentSegment else join ['/'] p.segments := rfl

/-- The segments of a form are found in its text. -/
theorem segmentsOf_render {p : NormalPath} (h : ∀ s ∈ p.segments, PlainSegment s) :
    segmentsOf p.render = p.segments := by
  rw [render_eq]
  split
  · have hcut := segmentsOf_append [] (join ['/'] p.segments)
    rw [List.nil_append] at hcut
    rw [hcut, segmentsOf_join h]
    rfl
  · split
    · next hempty =>
      rw [(join_eq_nil_iff fun s hs => (h s hs).ne_nil).mp hempty]
      rfl
    · exact segmentsOf_join h

/-- A form is absolute if its text begins with a slash. -/
theorem head?_render {p : NormalPath} (h : ∀ s ∈ p.segments, PlainSegment s) :
    (p.render.head? == some '/') = p.absolute := by
  obtain ⟨absolute, segments⟩ := p
  unfold render
  cases absolute with
  | true => rfl
  | false =>
    simp only [Bool.false_eq_true, if_false]
    cases segments with
    | nil => rfl
    | cons s rest =>
      have hs := h s (by simp)
      have hne : join ['/'] (s :: rest) ≠ [] := fun e =>
        absurd ((join_eq_nil_iff fun t ht => (h t ht).ne_nil).mp e) (by simp)
      rw [if_neg hne, head?_join hs.ne_nil]
      cases s with
      | nil => exact absurd rfl hs.ne_nil
      | cons c cs =>
        have hc : c ≠ '/' := fun e => hs.no_slash (by simp [e])
        simpa using hc

theorem Canonical.plain {p : NormalPath} (h : p.Canonical) : ∀ s ∈ p.segments, PlainSegment s :=
  fun s hs => Entered.plain h s (List.mem_reverse.mpr hs)

theorem Canonical.no_backslash {p : NormalPath} (h : p.Canonical) : '\\' ∉ p.render := by
  have hjoin : '\\' ∉ join ['/'] p.segments := by
    intro hmem
    rcases mem_join hmem with hslash | ⟨s, hs, hmem⟩
    · exact absurd hslash (by decide)
    · exact Entered.no_backslash h s (List.mem_reverse.mpr hs) hmem
  rw [render_eq]
  split
  · simpa using hjoin
  · split
    · decide
    · exact hjoin

theorem map_unifySlash_of_notMem {text : List Char} (h : '\\' ∉ text) : text.map unifySlash = text := by
  conv_rhs => rw [← List.map_id text]
  refine List.map_congr_left fun c hc => if_neg ?_
  rintro rfl
  exact h hc

/-- A canonical form is read back from its text. -/
theorem ofText_render {p : NormalPath} (h : p.Canonical) : ofText p.render = p := by
  have hunified : p.render.map unifySlash = p.render := map_unifySlash_of_notMem h.no_backslash
  have hsegments := segmentsOf_render h.plain
  have hentered := foldl_enter h
  unfold ofText ofSegments
  simp only [hunified, head?_render h.plain]
  rw [foldl_enter_filter]
  unfold segmentsOf at hsegments
  rw [hsegments, hentered, List.reverse_reverse]

end NormalPath

/-- Normalizing twice is normalizing once. -/
theorem normalizeText_normalizeText (text : List Char) :
    normalizeText (normalizeText text) = normalizeText text := by
  unfold normalizeText
  rw [NormalPath.ofText_render (NormalPath.canonical_ofText text)]

namespace Path

@[simp] theorem normalize_normalize (p : Path) : p.normalize.normalize = p.normalize := by
  simp [normalize, normalizeText_normalizeText]

/-- A path has the key of its normal form. -/
@[simp] theorem key_normalize (p : Path) : p.normalize.key = p.key := by
  simp [normalize, key, Key.ofText, normalizeText_normalizeText]

end Path

end KeywordIndex
