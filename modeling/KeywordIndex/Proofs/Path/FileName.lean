import KeywordIndex.Proofs.Path.Composition
import KeywordIndex.Proofs.Path.Joining
import Mathlib.Data.List.TakeDrop

namespace KeywordIndex

open Text NormalPath

/-! # File names

The file name of a path is the last segment that names something, unless that is `..` (`fileName?_eq`).
Seen from a directory a path keeps its file name, and a normal form keeps one without backslashes, so the
target of an import has the file name that is declared if no backslash stands in it
(`fileName?_importTarget`). Cut at the last dot, the parts of a file name are put together again
(`stem_append_dottedExtension`).
-/

namespace NormalPath

/-- With backslashes for slashes, each segment falls into those between its backslashes. -/
theorem segmentsOf_map_unifySlash (text : List Char) :
    segmentsOf (text.map unifySlash) = (segmentsOf text).flatMap fun s => segmentsOf (s.map unifySlash) := by
  have hpieces : ∀ pieces : List Segment, segmentsOf ((join ['/'] pieces).map unifySlash) =
      pieces.flatMap fun s => segmentsOf (s.map unifySlash) := by
    intro pieces
    induction pieces with
    | nil => rfl
    | cons piece rest ih =>
      cases rest with
      | nil => simp [join]
      | cons next rest =>
        rw [join_cons_cons, List.append_assoc, List.map_append, List.singleton_append, List.map_cons,
          show unifySlash '/' = '/' from rfl, segmentsOf_append, ih]
        rfl
  have hkept : ∀ pieces : List Segment, (pieces.flatMap fun s => segmentsOf (s.map unifySlash)) =
      (pieces.filter fun s => s ≠ [] ∧ s ≠ currentSegment).flatMap
        fun s => segmentsOf (s.map unifySlash) := by
    intro pieces
    induction pieces with
    | nil => rfl
    | cons piece rest ih =>
      rw [List.flatMap_cons, ih, List.filter_cons]
      split
      · rw [List.flatMap_cons]
      · next hidle =>
        -- what names nothing has no backslash
        simp only [decide_eq_true_eq, not_and_or, not_not] at hidle
        rcases hidle with rfl | rfl <;> rfl
  have htext := hpieces (split '/' text)
  rw [join_split, hkept] at htext
  exact htext

/-- A name that comes last stands last in the normal form. -/
theorem getLast?_segments_ofText {text : List Char} {s : Segment}
    (h : (segmentsOf text).getLast? = some s) (hparent : s ≠ parentSegment) (hbackslash : '\\' ∉ s) :
    (ofText text).segments.getLast? = some s := by
  obtain ⟨outer, houter⟩ := List.getLast?_eq_some_iff.mp h
  have hplain : PlainSegment s := plainSegment_of_mem_segmentsOf (houter ▸ List.mem_append_right _ (by simp))
  have hunified : segmentsOf (text.map unifySlash) =
      (outer.flatMap fun s => segmentsOf (s.map unifySlash)) ++ [s] := by
    rw [segmentsOf_map_unifySlash, houter, List.flatMap_append, List.flatMap_singleton,
      map_unifySlash_of_notMem hbackslash, Path.segmentsOf_plain hplain]
  rw [segmentsOf] at hunified
  rw [ofText_eq, ofSegments, foldl_enter_filter, hunified, List.foldl_append, List.foldl_cons,
    List.foldl_nil, enter_of_name (by simp [hplain.ne_nil, hplain.ne_current]) hparent,
    List.reverse_cons, List.getLast?_concat]

end NormalPath

namespace Path

variable {p : Path} {name : String}

theorem fileName?_eq (p : Path) : p.fileName? =
    ((segmentsOf p.text.toList).getLast?.filter (· ≠ parentSegment)).map String.ofList := by
  have hlead : ∀ s, (Component.lead '/' '.' p.text.toList).getLast? ≠ some (.name s) := by
    intro s
    rcases Component.lead_cases '/' '.' p.text.toList with hlead | hlead | hlead <;> simp [hlead]
  rw [fileName?, components_eq, List.getLast?_append, List.getLast?_map]
  cases (segmentsOf p.text.toList).getLast? with
  | none =>
    -- what stands before the segments is no entry
    cases hlast : (Component.lead '/' '.' p.text.toList).getLast? with
    | none => rfl
    | some c =>
      cases c with
      | name s => exact absurd hlast (hlead s)
      | _ => rfl
  | some s =>
    by_cases hparent : s = parentSegment
    · simp [Component.ofSegment, hparent, Option.filter_some]
    · simp [Component.ofSegment, hparent, Option.filter_some]

theorem fileName?_eq_some_iff : p.fileName? = some name ↔
    (segmentsOf p.text.toList).getLast? = some name.toList ∧ name.toList ≠ parentSegment := by
  rw [fileName?_eq, Option.map_eq_some_iff]
  constructor
  · rintro ⟨s, hs, rfl⟩
    simpa [Option.filter_eq_some_iff] using hs
  · rintro ⟨hlast, hparent⟩
    exact ⟨name.toList, by simp [hlast, hparent], String.ofList_toList⟩

/-- A file name is not empty. -/
theorem fileName?_ne_empty (h : p.fileName? = some name) : name ≠ "" := by
  rintro rfl
  exact (plainSegment_of_mem_segmentsOf (List.mem_of_getLast? (fileName?_eq_some_iff.mp h).1)).ne_nil rfl

/-- The segments of a normal path are those of the normal form. -/
theorem segmentsOf_normalize (p : Path) :
    segmentsOf p.normalize.text.toList = (ofText p.text.toList).segments := by
  rw [normalize, String.toList_ofList, normalizeText, segmentsOf_render (canonical_ofText _).plain]

theorem fileName?_normalize (h : p.fileName? = some name) (hbackslash : '\\' ∉ name.toList) :
    p.normalize.fileName? = some name := by
  obtain ⟨hlast, hparent⟩ := fileName?_eq_some_iff.mp h
  rw [fileName?_eq_some_iff, segmentsOf_normalize]
  exact ⟨getLast?_segments_ofText hlast hparent hbackslash, hparent⟩

/-- The file name of a normal path has no backslash. -/
theorem no_backslash_of_fileName?_normalize (h : p.normalize.fileName? = some name) :
    '\\' ∉ name.toList := by
  rw [fileName?_eq_some_iff, segmentsOf_normalize] at h
  exact Entered.no_backslash (canonical_ofText p.text.toList) _
    (List.mem_reverse.mpr (List.mem_of_getLast? h.1))

theorem fileName?_join (directory : Path) (h : p.fileName? = some name) :
    (directory.join p).fileName? = some name := by
  cases habsolute : p.isAbsolute with
  | true => rwa [join, habsolute, if_pos rfl]
  | false =>
    obtain ⟨before, hbefore⟩ := text_join directory
    rw [fileName?_eq_some_iff] at h ⊢
    rw [hbefore p habsolute]
    split
    · exact h
    · rw [segmentsOf_append, List.getLast?_append, h.1]
      exact ⟨rfl, h.2⟩

/-! ## Stem and extension -/

/-- A name cut at its last dot is put together again. -/
theorem cutExtension_append (name : List Char) :
    (cutExtension name).1 ++ ((cutExtension name).2.map ('.' :: ·)).getD [] = name := by
  unfold cutExtension
  rw [List.span_eq_takeWhile_dropWhile]
  have hcut : name.reverse.takeWhile (· ≠ '.') ++ name.reverse.dropWhile (· ≠ '.') = name.reverse :=
    List.takeWhile_append_dropWhile
  cases hrest : name.reverse.dropWhile (· ≠ '.') with
  | nil => simp
  | cons dot stem =>
    cases stem with
    | nil => simp
    | cons last before =>
      have hdot : dot = '.' := by
        have hne : name.reverse.dropWhile (· ≠ '.') ≠ [] := hrest ▸ List.cons_ne_nil _ _
        have hfirst := List.head_dropWhile_not (· ≠ '.') hne
        simp only [hrest, List.head_cons, decide_eq_false_iff_not, not_not] at hfirst
        exact hfirst
      rw [hrest, hdot] at hcut
      simpa using congrArg List.reverse hcut

theorem stem_append_dottedExtension (p : Path) : p.stem ++ p.dottedExtension = p.fileName?.getD "" := by
  unfold stem stem? dottedExtension extension?
  cases p.fileName? with
  | none => rfl
  | some name =>
    have hcut := cutExtension_append name.toList
    apply String.toList_inj.mp
    cases hextension : (cutExtension name.toList).2 <;> simp_all

end Path

/-! ## Targets of imports -/

variable {declared name : String} {directory : Path}

theorem importTarget_of_resolveImport? {isFile : Path → Bool} {target : Path}
    (h : resolveImport? isFile directory declared = some target) : importTarget declared directory = target := by
  unfold resolveImport? at h
  grind

theorem exists_importTarget_eq_normalize (declared : String) (directory : Path) :
    ∃ p : Path, importTarget declared directory = p.normalize := by
  rw [importTarget_eq]
  split
  · exact ⟨_, rfl⟩
  · exact ⟨_, rfl⟩

/-- An import has the file name of its target, if there is no backslash in it. -/
theorem fileName?_importTarget (h : (Path.mk declared).fileName? = some name)
    (hbackslash : '\\' ∉ name.toList) : (importTarget declared directory).fileName? = some name := by
  rw [importTarget_eq]
  split
  · exact Path.fileName?_normalize h hbackslash
  · exact Path.fileName?_normalize (Path.fileName?_join directory h) hbackslash

end KeywordIndex
