import KeywordIndex.Index.Imports
import KeywordIndex.Proofs.Path.Containment
import KeywordIndex.Proofs.Text.Lowercase

namespace KeywordIndex

open Text NormalPath

/-! # Normal forms compose

Entering the segments of a relative path one by one leads to the same directory as entering those of its
normal form (`foldl_enter_foldl`). So what a joined path comes to depends on the normal forms of its parts
alone (`ofText_append_slash`), and it makes no difference how often and where a path is normalized on its way
to a key or to the target of an import (`normalizeText_canonical`).
-/

namespace NormalPath

/-! ## The shape of a normal form -/

/-- Of `..` there is only a block at the front. -/
theorem exists_replicate_append {segments : List Segment}
    (h : segments.Pairwise fun outer inner => inner = parentSegment → outer = parentSegment) :
    ∃ (n : Nat) (names : List Segment),
      segments = List.replicate n parentSegment ++ names ∧ parentSegment ∉ names := by
  induction segments with
  | nil => exact ⟨0, [], rfl, by simp⟩
  | cons s rest ih =>
    obtain ⟨hs, hrest⟩ := List.pairwise_cons.mp h
    by_cases hparent : s = parentSegment
    · obtain ⟨n, names, rfl, hnames⟩ := ih hrest
      exact ⟨n + 1, names, by rw [hparent, List.replicate_succ, List.cons_append], hnames⟩
    · refine ⟨0, s :: rest, rfl, fun hmem => ?_⟩
      rcases List.mem_cons.mp hmem with e | hmem
      · exact hparent e.symm
      · exact hparent (hs _ hmem rfl)

theorem Canonical.exists_replicate {p : NormalPath} (h : p.Canonical) :
    ∃ (n : Nat) (names : List Segment),
      p.segments = List.replicate n parentSegment ++ names ∧ parentSegment ∉ names ∧
        (p.absolute = true → n = 0) := by
  obtain ⟨n, names, hsegments, hnames⟩ := exists_replicate_append (List.pairwise_reverse.mp h.parents)
  refine ⟨n, names, hsegments, hnames, fun habsolute => ?_⟩
  by_contra hn
  refine h.no_parent habsolute (List.mem_reverse.mpr ?_)
  rw [hsegments]
  exact List.mem_append_left _ (List.mem_replicate.mpr ⟨hn, rfl⟩)

/-- Entering leaves segments whose lowercase forms are as entering leaves them. -/
theorem Entered.map_lower {absolute : Bool} {above : List Segment} (h : Entered absolute above) :
    Entered absolute (above.map Text.lower) where
  plain := List.forall_mem_map.mpr fun s hs => (h.plain s hs).lower
  no_backslash := List.forall_mem_map.mpr fun s hs hmem =>
    h.no_backslash s hs ((mem_lower_iff (by decide) s).mp hmem)
  parents := List.pairwise_map.mpr <|
    h.parents.imp fun hparents e => lower_eq_parent_iff.mpr (hparents (lower_eq_parent_iff.mp e))
  no_parent := fun ha hmem => by
    obtain ⟨s, hs, e⟩ := List.mem_map.mp hmem
    exact h.no_parent ha (lower_eq_parent_iff.mp e ▸ hs)

/-- The lowercase form of a canonical form is canonical. -/
theorem Canonical.lower {p : NormalPath} (h : p.Canonical) :
    Canonical ⟨p.absolute, p.segments.map Text.lower⟩ := by
  rw [Canonical, ← List.map_reverse]
  exact Entered.map_lower h

/-- A canonical form is written with a leading slash if it is absolute. -/
theorem Canonical.beginsWithSlash_render {p : NormalPath} (h : p.Canonical) :
    beginsWithSlash p.render = p.absolute := by
  rw [← absolute_ofText, ofText_render h]

/-! ## Entering a path -/

/-- What was entered names something. -/
theorem not_idle_enter {absolute : Bool} {above : List Segment}
    (h : ∀ t ∈ above, ¬ (t = [] ∨ t = currentSegment)) (s : Segment) :
    ∀ t ∈ enter absolute above s, ¬ (t = [] ∨ t = currentSegment) := by
  by_cases hidle : s = [] ∨ s = currentSegment
  · rwa [enter_of_idle hidle]
  · by_cases hparent : s = parentSegment
    · subst hparent
      cases above with
      | nil =>
        cases absolute with
        | true => exact h
        | false => exact List.forall_mem_singleton.mpr hidle
      | cons t outer =>
        by_cases ht : t = parentSegment
        · rw [ht] at h ⊢
          rw [enter_parent_parent]
          exact List.forall_mem_cons.mpr ⟨hidle, h⟩
        · rw [enter_parent_cons ht]
          exact (List.forall_mem_cons.mp h).2
    · rw [enter_of_name hidle hparent]
      exact List.forall_mem_cons.mpr ⟨hidle, h⟩

/-- Entering one more segment of a relative path commutes with entering the path from a directory. -/
theorem foldl_enter_enter (absolute : Bool) (above : List Segment) {inner : List Segment}
    (h : ∀ t ∈ inner, ¬ (t = [] ∨ t = currentSegment)) (s : Segment) :
    (enter false inner s).reverse.foldl (enter absolute) above =
      enter absolute (inner.reverse.foldl (enter absolute) above) s := by
  by_cases hidle : s = [] ∨ s = currentSegment
  · rw [enter_of_idle hidle, enter_of_idle hidle]
  · by_cases hparent : s = parentSegment
    · subst hparent
      cases inner with
      | nil => rfl
      | cons t outer =>
        by_cases ht : t = parentSegment
        · rw [ht, enter_parent_parent, List.reverse_cons, List.foldl_append]
          rfl
        · -- the name is taken away again, on either side
          rw [enter_parent_cons ht, List.reverse_cons, List.foldl_append, List.foldl_cons,
            List.foldl_nil, enter_of_name (h t List.mem_cons_self) ht, enter_parent_cons ht]
    · rw [enter_of_name hidle hparent, List.reverse_cons, List.foldl_append]
      rfl

/-- Entering the segments of a relative path leads where entering those of its normal form does. -/
theorem foldl_enter_foldl (absolute : Bool) (above segments : List Segment) :
    (segments.foldl (enter false) []).reverse.foldl (enter absolute) above =
      segments.foldl (enter absolute) above := by
  -- the segments that were entered before the rest are those of the path from `above` on
  have general : ∀ inner : List Segment, (∀ t ∈ inner, ¬ (t = [] ∨ t = currentSegment)) →
      (segments.foldl (enter false) inner).reverse.foldl (enter absolute) above =
        segments.foldl (enter absolute) (inner.reverse.foldl (enter absolute) above) := by
    induction segments with
    | nil => exact fun _ _ => rfl
    | cons s rest ih =>
      intro inner h
      rw [List.foldl_cons, List.foldl_cons, ih _ (not_idle_enter h s), foldl_enter_enter absolute above h]
  exact general [] (by simp)

/-! ## Joined paths -/

/-- The form that is reached from the directory `p` by the segments of `q`. -/
def below (p q : NormalPath) : NormalPath := ofSegments p.absolute (p.segments ++ q.segments)

theorem ofText_eq (text : List Char) :
    ofText text = ofSegments (beginsWithSlash text) (split '/' (text.map unifySlash)) := by
  rw [← absolute_ofText]
  rfl

theorem beginsWithSlash_append_slash (a b : List Char) :
    beginsWithSlash (a ++ '/' :: b) = beginsWithSlash (a ++ ['/']) := by
  cases a <;> rfl

theorem split_map_append_slash (a b : List Char) :
    split '/' ((a ++ '/' :: b).map unifySlash) =
      split '/' (a.map unifySlash) ++ split '/' (b.map unifySlash) := by
  rw [List.map_append, List.map_cons]
  exact split_append '/' _ _

/-- A slash at the end names nothing. -/
theorem ofText_append_slash_nil {a : List Char} (h : a ≠ []) : ofText (a ++ ['/']) = ofText a := by
  have hhead : beginsWithSlash (a ++ ['/']) = beginsWithSlash a := by
    rw [beginsWithSlash, beginsWithSlash, List.head?_append_of_ne_nil _ h]
  rw [ofText_eq, ofText_eq, hhead, split_map_append_slash, ofSegments, ofSegments, List.foldl_append]
  rfl

/-- A joined path has the normal form that is reached from that of the directory. -/
theorem ofText_append_slash (a : List Char) {b : List Char} (hb : beginsWithSlash b = false) :
    ofText (a ++ '/' :: b) = (ofText (a ++ ['/'])).below (ofText b) := by
  have hcanonical := canonical_ofText (a ++ ['/'])
  have hgathered := foldl_enter hcanonical
  rw [below, ofSegments, List.foldl_append, hgathered, absolute_ofText]
  -- what has been entered last, the directory's own slash, names nothing
  have houter : (ofText (a ++ ['/'])).segments.reverse =
      (split '/' (a.map unifySlash)).foldl (enter (beginsWithSlash (a ++ ['/']))) [] := by
    rw [ofText_eq, split_map_append_slash, ofSegments, List.reverse_reverse, List.foldl_append]
    rfl
  rw [houter, ofText_eq b, hb, ofSegments, foldl_enter_foldl, ← List.foldl_append, ofText_eq,
    beginsWithSlash_append_slash, split_map_append_slash, ofSegments]

/-- The parts of a joined path may be put into normal form before they are joined. -/
theorem ofText_render_append_slash {a b : List Char} (ha : a ≠ []) (hb : beginsWithSlash b = false) :
    ofText ((ofText a).render ++ '/' :: (ofText b).render) = ofText (a ++ '/' :: b) := by
  have hrelative : beginsWithSlash (ofText b).render = false := by
    rw [(canonical_ofText b).beginsWithSlash_render, absolute_ofText, hb]
  rw [ofText_append_slash _ hrelative, ofText_append_slash _ hb, ofText_append_slash_nil (render_ne_nil _),
    ofText_append_slash_nil ha, ofText_render (canonical_ofText a), ofText_render (canonical_ofText b)]

end NormalPath

/-! ## Keys and targets -/

/-- The text of a key is its own normal form, in lowercase. -/
theorem Key.ofText_text (text : String) : Key.ofText (Key.ofText text).text = Key.ofText text := by
  have hcanonical := (canonical_ofText text.toList).lower
  have hnormal : normalizeText (lower (normalizeText text.toList)) = lower (normalizeText text.toList) := by
    rw [normalizeText, normalizeText, lower_render, ofText_render hcanonical]
  simp only [Key.ofText, String.toList_ofList, hnormal, lower_lower]

namespace Path

/-- A relative path is written after the text of the directory, which may end with a slash of its own. -/
theorem text_join (directory : Path) : ∃ before : List Char, ∀ q : Path,
    q.isAbsolute = false → (directory.join q).text.toList =
      if directory.text.isEmpty then q.text.toList else before ++ '/' :: q.text.toList := by
  by_cases hempty : directory.text.isEmpty = true
  · refine ⟨[], fun q hq => ?_⟩
    have htext : directory.text = "" := by simpa using hempty
    simp [join, hq, htext]
  · by_cases hslash : directory.text.toList.getLast? = some '/'
    · obtain ⟨before, hbefore⟩ := List.getLast?_eq_some_iff.mp hslash
      refine ⟨before, fun q hq => ?_⟩
      simp [join, hq, hempty, hbefore]
    · refine ⟨directory.text.toList, fun q hq => ?_⟩
      simp [join, hq, hempty, hslash]

/-- Whether a relative path is put into normal form before it is joined makes no difference after it. -/
theorem normalize_join_normalize (directory : Path) {p : Path} (hp : beginsWithSlash p.text.toList = false) :
    (directory.join p.normalize).normalize = (directory.join p).normalize := by
  have hnormal : p.normalize.text.toList = (ofText p.text.toList).render := by
    simp [normalize, normalizeText]
  have hcanonical := canonical_ofText p.text.toList
  have hrelative : beginsWithSlash p.normalize.text.toList = false := by
    rw [hnormal, hcanonical.beginsWithSlash_render, absolute_ofText, hp]
  have habsolute : ∀ q : Path, beginsWithSlash q.text.toList = false → q.isAbsolute = false := by
    intro q hq
    exact (Bool.or_eq_false_iff.mp hq).1
  obtain ⟨before, hbefore⟩ := text_join directory
  suffices h : normalizeText (directory.join p.normalize).text.toList =
      normalizeText (directory.join p).text.toList from congrArg (fun cs => Path.mk (String.ofList cs)) h
  rw [hbefore _ (habsolute _ hrelative), hbefore _ (habsolute _ hp)]
  split
  · rw [hnormal, ← normalizeText, normalizeText_normalizeText]
  · rw [normalizeText, normalizeText, ofText_append_slash _ hrelative, ofText_append_slash _ hp, hnormal,
      ofText_render hcanonical]

end Path

/-- The target of an import is the normal form of the import's path seen from the directory, unless the path
begins with a backslash, which is a root in a normal form alone. -/
theorem importTarget_eq (declared : String) (directory : Path) :
    importTarget declared directory =
      if declared.toList.head? = some '\\' then (Path.mk declared).normalize
      else (directory.join ⟨declared⟩).normalize := by
  have hcanonical := canonical_ofText declared.toList
  have habsolute : (Path.mk declared).normalize.isAbsolute = beginsWithSlash declared.toList := by
    rw [← absolute_ofText, ← head?_render hcanonical.plain]
    simp [Path.normalize, Path.isAbsolute, normalizeText]
  rw [importTarget]
  simp only [habsolute]
  split
  · next hslash =>
    split
    · rfl
    · next hback =>
      have hjoin : directory.join ⟨declared⟩ = ⟨declared⟩ := by
        simp only [beginsWithSlash, Bool.or_eq_true, beq_iff_eq, hback, or_false] at hslash
        simp [Path.join, Path.isAbsolute, hslash]
      rw [hjoin]
  · next hrelative =>
    rw [Bool.not_eq_true] at hrelative
    have hback : declared.toList.head? ≠ some '\\' := by
      intro e
      rw [beginsWithSlash, e] at hrelative
      exact absurd hrelative (by decide)
    rw [if_neg hback]
    exact Path.normalize_join_normalize directory (p := ⟨declared⟩) hrelative

/-! ## The canonical form -/

/-- The text of a normal form: `/`, `.`, or names between slashes, after a leading slash if it is absolute and
after any number of `..` if it is not. -/
def IsNormal (absolute : Bool) (text : List Char) : Prop :=
  ∃ (n : Nat) (names : List Segment),
    (∀ s ∈ names, s ≠ [] ∧ s ≠ currentSegment ∧ s ≠ parentSegment ∧ '/' ∉ s ∧ '\\' ∉ s) ∧
      text = if absolute then '/' :: join ['/'] names
        else if n = 0 ∧ names = [] then ['.']
        else join ['/'] (List.replicate n parentSegment ++ names)

theorem isNormal_normalizeText (text : List Char) : IsNormal (beginsWithSlash text) (normalizeText text) := by
  have hcanonical := canonical_ofText text
  obtain ⟨n, names, hsegments, hnames, habsolute⟩ := hcanonical.exists_replicate
  have hmem : ∀ s ∈ names, s ∈ (ofText text).segments := fun s hs => by
    rw [hsegments]
    exact List.mem_append_right _ hs
  refine ⟨n, names, fun s hs => ?_, ?_⟩
  · have hplain := hcanonical.plain s (hmem s hs)
    refine ⟨hplain.ne_nil, hplain.ne_current, fun e => hnames (e ▸ hs), hplain.no_slash, ?_⟩
    exact Entered.no_backslash hcanonical s (List.mem_reverse.mpr (hmem s hs))
  · rw [absolute_ofText] at habsolute
    rw [normalizeText, render_eq, absolute_ofText]
    split
    · next hslash => rw [hsegments, habsolute hslash, List.replicate_zero, List.nil_append]
    · have hempty : join ['/'] (ofText text).segments = [] ↔ n = 0 ∧ names = [] := by
        rw [join_eq_nil_iff fun s hs => (hcanonical.plain s hs).ne_nil, hsegments, List.append_eq_nil_iff,
          List.replicate_eq_nil_iff]
      rw [if_congr hempty rfl rfl, hsegments]
      rfl

/-- Putting paths into normal form is putting them into a canonical form that agrees with joining them. So a
key is the key of its own text, and the target of an import is found by one join. The exception is an import
that is declared with a leading backslash: its normal form is absolute, so it is its own target and not joined. -/
theorem normalizeText_canonical :
    (∀ text, IsNormal (beginsWithSlash text) (normalizeText text)) ∧
    (∀ text, normalizeText (normalizeText text) = normalizeText text) ∧
    (∀ a b, a ≠ [] → beginsWithSlash b = false →
      normalizeText (a ++ '/' :: b) = normalizeText (normalizeText a ++ '/' :: normalizeText b)) ∧
    (∀ text, Key.ofText (Key.ofText text).text = Key.ofText text) ∧
    ∀ declared directory, importTarget declared directory =
      if declared.toList.head? = some '\\' then (Path.mk declared).normalize
      else (directory.join ⟨declared⟩).normalize := by
  refine ⟨isNormal_normalizeText, normalizeText_normalizeText, fun a b ha hb => ?_, Key.ofText_text,
    importTarget_eq⟩
  exact congrArg render (ofText_render_append_slash ha hb).symm

theorem normalizeText_parent_below :
    normalizeText "../A\\./b/../../..//c.robot".toList = "../../c.robot".toList ∧
      normalizeText ("../A".toList ++ '/' :: "b/../../../c.robot".toList) =
        normalizeText (normalizeText "../A".toList ++ '/' :: normalizeText "b/../../../c.robot".toList) :=
  ⟨by decide +kernel, normalizeText_canonical.2.2.1 _ _ (by decide +kernel) (by decide +kernel)⟩

end KeywordIndex
