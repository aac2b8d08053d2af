import KeywordIndex.Proofs.Path.Canonical

namespace KeywordIndex

open Text NormalPath

/-! # What a directory holds

A directory holds what lies below it: its segments come first among those of the key. The test on keys
says the same of the keys of paths (`isWithin_iff`), but for the current directory: its key `.` is no
beginning of the keys below it, and is within itself alone. Between relative paths the test compares the
lowercase segments of the normal forms, with that one exception (`isWithin_relative_iff`).
-/

namespace Key

/-- The segments of a key. -/
def segments (key : Key) : List Segment := segmentsOf key.text.toList

/-- Whether the key begins at the root. -/
def isAbsolute (key : Key) : Bool := key.text.toList.head? == some '/'

/-- The key of the current directory. -/
def current : Key := ⟨"."⟩

/-- The directory is the key or lies above it. -/
def Holds (directory key : Key) : Prop :=
  directory.isAbsolute = key.isAbsolute ∧ directory.segments <+: key.segments

instance (directory key : Key) : Decidable (directory.Holds key) :=
  inferInstanceAs (Decidable (_ ∧ _))

end Key

/-! ## The text of a key -/

theorem lower_eq_current_iff {s : Segment} : lower s = currentSegment ↔ s = currentSegment :=
  lower_eq_iff (by decide)

theorem lower_eq_parent_iff {s : Segment} : lower s = parentSegment ↔ s = parentSegment :=
  lower_eq_iff (by decide)

theorem PlainSegment.lower {s : Segment} (h : PlainSegment s) : PlainSegment (lower s) where
  ne_nil := fun e => h.ne_nil (lower_eq_nil_iff.mp e)
  ne_current := fun e => h.ne_current (lower_eq_current_iff.mp e)
  no_slash := fun hmem => h.no_slash ((mem_lower_iff (by decide) s).mp hmem)

/-- The lowercase form of a normal form is taken segment by segment. -/
theorem lower_render (p : NormalPath) :
    Text.lower p.render = render ⟨p.absolute, p.segments.map Text.lower⟩ := by
  have hcurrent : Text.lower currentSegment = currentSegment := by decide +kernel
  simp only [render_eq, ← lower_join]
  split
  · exact lower_append_slash [] _
  · split
    · next hempty =>
      rw [hempty, hcurrent]
      rfl
    · next hne => rw [if_neg fun e => hne (lower_eq_nil_iff.mp e)]

namespace Path

/-- The segments of the normal form of the path. -/
def normalSegments (p : Path) : List Segment := (ofText p.text.toList).segments

theorem plain_key (p : Path) : ∀ s ∈ p.normalSegments.map Text.lower, PlainSegment s := by
  intro s hs
  obtain ⟨t, ht, rfl⟩ := List.mem_map.mp hs
  exact ((canonical_ofText p.text.toList).plain t ht).lower

/-- The key of a path is written as a form with plain segments. -/
theorem text_key (p : Path) :
    p.key.text.toList = render ⟨beginsWithSlash p.text.toList, p.normalSegments.map Text.lower⟩ := by
  rw [← absolute_ofText, normalSegments, ← lower_render]
  simp [key, Key.ofText, normalizeText]

theorem isAbsolute_key (p : Path) : p.key.isAbsolute = beginsWithSlash p.text.toList := by
  rw [Key.isAbsolute, text_key, head?_render p.plain_key]

/-- The segments of a key are those of the path in lowercase. -/
theorem segments_key (p : Path) : p.key.segments = p.normalSegments.map Text.lower := by
  rw [Key.segments, text_key, segmentsOf_render p.plain_key]

end Path

namespace NormalPath

theorem render_ne_nil (p : NormalPath) : p.render ≠ [] := by
  rw [render_eq]
  split
  · simp
  · split
    · decide
    · next hne => exact hne

/-- Two forms of which one begins with the other are written one after the other, with a slash between
them unless the first is the root or the current directory. -/
theorem render_append {absolute : Bool} {segments rest : List Segment} (hne : segments ≠ [])
    (hrest : rest ≠ []) (h : ∀ s ∈ segments, PlainSegment s) :
    render ⟨absolute, segments ++ rest⟩ = render ⟨absolute, segments⟩ ++ '/' :: join ['/'] rest := by
  have hjoin : join ['/'] segments ≠ [] := fun e =>
    hne ((join_eq_nil_iff fun s hs => (h s hs).ne_nil).mp e)
  have happend := join_append (c := '/') hne hrest
  simp only [render_eq, happend]
  cases absolute with
  | true => rfl
  | false =>
    simp only [Bool.false_eq_true, if_false]
    rw [if_neg (by simp), if_neg hjoin]

/-- Plain forms are told apart by their texts. -/
theorem render_inj {p q : NormalPath} (hp : ∀ s ∈ p.segments, PlainSegment s)
    (hq : ∀ s ∈ q.segments, PlainSegment s) (h : p.render = q.render) : p = q := by
  have habsolute : p.absolute = q.absolute := by rw [← head?_render hp, ← head?_render hq, h]
  have hsegments : p.segments = q.segments := by rw [← segmentsOf_render hp, ← segmentsOf_render hq, h]
  exact congrArg₂ NormalPath.mk habsolute hsegments

/-- No form is written with a leading `./`. -/
theorem render_ne_current_slash {p : NormalPath} (h : ∀ s ∈ p.segments, PlainSegment s)
    (rest : List Char) : p.render ≠ currentSegment ++ '/' :: rest := by
  intro e
  have hrelative : p.absolute = false := by rw [← head?_render h, e]; rfl
  rw [render_eq, hrelative] at e
  simp only [Bool.false_eq_true, if_false] at e
  split at e
  · exact absurd (congrArg List.length e) (by simp [currentSegment])
  · next hjoin =>
    have hne : p.segments ≠ [] := fun hnil => hjoin (by rw [hnil]; rfl)
    have hpieces := split_join hne fun s hs => (h s hs).no_slash
    rw [e, split_append, split_of_not_mem (by decide)] at hpieces
    exact (h currentSegment (by simp [← hpieces])).ne_current rfl

/-- The text of one form goes on after that of another exactly if its segments do. -/
theorem render_continues_iff {outer inner : NormalPath} (houter : ∀ s ∈ outer.segments, PlainSegment s)
    (hinner : ∀ s ∈ inner.segments, PlainSegment s) :
    (inner.render = outer.render ∨ (∃ rest, inner.render = outer.render ++ '/' :: rest) ∨
      outer.render.getLast? = some '/' ∧ ∃ rest, inner.render = outer.render ++ rest) ↔
      (outer.absolute = inner.absolute ∧ outer.segments <+: inner.segments) ∧
        (outer.render = currentSegment → inner.render = currentSegment) := by
  have habsolute {rest : List Char} (e : inner.render = outer.render ++ rest) :
      outer.absolute = inner.absolute := by
    rw [← head?_render houter, ← head?_render hinner, e,
      List.head?_append_of_ne_nil _ (render_ne_nil outer)]
  constructor
  · rintro (e | ⟨rest, e⟩ | ⟨hlast, rest, e⟩)
    · -- the same text, and the same form
      obtain rfl := render_inj hinner houter e
      exact ⟨⟨rfl, List.prefix_rfl⟩, id⟩
    · refine ⟨⟨habsolute e, segmentsOf rest, ?_⟩, fun hcurrent => ?_⟩
      · rw [← segmentsOf_render hinner, e, segmentsOf_append, segmentsOf_render houter]
      · exact absurd (hcurrent ▸ e) (render_ne_current_slash hinner rest)
    · refine ⟨⟨habsolute e, segmentsOf rest, ?_⟩, fun hcurrent => ?_⟩
      · obtain ⟨before, hbefore⟩ := List.getLast?_eq_some_iff.mp hlast
        rw [← segmentsOf_render hinner, ← segmentsOf_render houter, e, hbefore, List.append_assoc,
          List.singleton_append, segmentsOf_append, segmentsOf_append]
        simp [segmentsOf, split, splitWhere]
      · rw [hcurrent] at hlast
        exact absurd hlast (by decide)
  · obtain ⟨absolute, segments⟩ := outer
    obtain ⟨absolute', segments'⟩ := inner
    rintro ⟨⟨hsame, rest, hrest⟩, hcurrent⟩
    simp only at hsame hrest
    subst hsame hrest
    rcases eq_or_ne rest [] with rfl | hrest
    · exact Or.inl (by rw [List.append_nil])
    · rcases eq_or_ne segments [] with rfl | hne
      · -- the root ends with its slash, and the current directory is no beginning of others
        cases absolute with
        | true => exact Or.inr (Or.inr ⟨rfl, join ['/'] rest, rfl⟩)
        | false => exact Or.inl (hcurrent rfl)
      · exact Or.inr (Or.inl ⟨join ['/'] rest, render_append hne hrest houter⟩)

end NormalPath

namespace Key

theorem isWithin_eq_true_iff {key directory : Key} (h : directory.text.toList ≠ []) :
    key.isWithin directory = true ↔
      key.text.toList = directory.text.toList ∨
      (∃ rest, key.text.toList = directory.text.toList ++ '/' :: rest) ∨
      directory.text.toList.getLast? = some '/' ∧
        ∃ rest, key.text.toList = directory.text.toList ++ rest := by
  have hempty : directory.text.isEmpty = false := by simpa using h
  unfold isWithin
  rw [hempty]
  simp only [Bool.false_eq_true, if_false]
  cases hafter : after? directory.text.toList key.text.toList with
  | none =>
    have hno : ∀ rest, key.text.toList ≠ directory.text.toList ++ rest := by
      intro rest e
      rw [after?_eq_some_iff.mpr e] at hafter
      cases hafter
    have hne : key.text.toList ≠ directory.text.toList := by simpa using hno []
    simp [hno, hne]
  | some rest =>
    have hkey := after?_eq_some_iff.mp hafter
    cases rest with
    | nil => simp [hkey]
    | cons c rest =>
      have hne : key.text.toList ≠ directory.text.toList := by
        intro e
        rw [e] at hkey
        simpa using congrArg List.length hkey
      have hcut : (∃ others, key.text.toList = directory.text.toList ++ '/' :: others) ↔ c = '/' := by
        rw [hkey]
        simp
      have hbegins : ∃ others, key.text.toList = directory.text.toList ++ others := ⟨_, hkey⟩
      simp [hne, hcut, hbegins]

/-- Of the keys of paths, those are within a directory that it holds; but within the current directory
there is nothing but itself. -/
theorem isWithin_iff (p directory : Path) :
    p.key.isWithin directory.key = true ↔
      directory.key.Holds p.key ∧ (directory.key = current → p.key = current) := by
  have hp := p.text_key
  have hd := directory.text_key
  have hcurrent : ∀ key : Key, key = current ↔ key.text.toList = currentSegment := by
    rintro ⟨text⟩
    rw [current, Key.mk.injEq, ← String.toList_inj]
    rfl
  rw [isWithin_eq_true_iff (hd ▸ render_ne_nil _), hcurrent, hcurrent, Holds, directory.isAbsolute_key,
    p.isAbsolute_key, directory.segments_key, p.segments_key, hp, hd,
    render_continues_iff directory.plain_key p.plain_key]

/-! ## Relative paths -/

/-- A key is that of the current directory if its path is relative and has no segments. -/
theorem eq_current_iff (p : Path) :
    p.key = current ↔ beginsWithSlash p.text.toList = false ∧ p.normalSegments = [] := by
  constructor
  · intro h
    refine ⟨by rw [← p.isAbsolute_key, h]; rfl, ?_⟩
    have hsegments := p.segments_key
    rw [h] at hsegments
    exact List.map_eq_nil_iff.mp hsegments.symm
  · rintro ⟨hrelative, hempty⟩
    have htext := p.text_key
    rw [hrelative, hempty] at htext
    exact congrArg Key.mk (String.toList_inj.mp htext)

/-- A relative path is within another one whose segments come first among its own, whatever the case of
their letters; but within the current directory, which has no segments, there is only itself. -/
theorem isWithin_relative_iff {p directory : Path} (hp : beginsWithSlash p.text.toList = false)
    (hd : beginsWithSlash directory.text.toList = false) :
    p.key.isWithin directory.key = true ↔
      directory.normalSegments.map Text.lower <+: p.normalSegments.map Text.lower ∧
        (directory.normalSegments = [] → p.normalSegments = []) := by
  rw [isWithin_iff, Holds, directory.isAbsolute_key, p.isAbsolute_key, hp, hd, directory.segments_key,
    p.segments_key, eq_current_iff, eq_current_iff, hp, hd]
  simp

theorem isWithin_relative_parent :
    beginsWithSlash "../tests/./Smoke/../LIB/x.robot".toList = false ∧
      beginsWithSlash "..\\Tests//".toList = false ∧
      (Path.key ⟨"../tests/./Smoke/../LIB/x.robot"⟩).isWithin (Path.key ⟨"..\\Tests//"⟩) = true := by
  have hp : beginsWithSlash (Path.mk "../tests/./Smoke/../LIB/x.robot").text.toList = false := by
    decide +kernel
  have hd : beginsWithSlash (Path.mk "..\\Tests//").text.toList = false := by decide +kernel
  exact ⟨hp, hd, (isWithin_relative_iff hp hd).mpr (by decide +kernel)⟩

/-- The current directory has no segments, which come first among any, and yet a file in it is not within
it. -/
theorem not_isWithin_current :
    beginsWithSlash "a.robot".toList = false ∧ beginsWithSlash ".".toList = false ∧
      (Path.mk ".").normalSegments.map Text.lower <+: (Path.mk "a.robot").normalSegments.map Text.lower ∧
      (Path.key ⟨"a.robot"⟩).isWithin (Path.key ⟨"."⟩) = false := by
  decide +kernel

end Key

end KeywordIndex
