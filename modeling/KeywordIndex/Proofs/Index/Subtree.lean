import KeywordIndex.Proofs.Index.Origin
import KeywordIndex.Proofs.Path.Joining
import KeywordIndex.Robot.Source

namespace KeywordIndex

open Text NormalPath

/-! # Removing a directory

The records of an index are keyed by normal forms (`keyed_after`), and below a directory at the root lie
those whose components begin with its own (`isPrefix_components_iff`). So a removal takes these away and no
others, whatever text the directory's key shares with the keys beside it, and the name table lists what
is left (`reset_rooted`).
-/

namespace Key

/-- The components of the path that a key is written as. -/
def components (key : Key) : List Component := (Path.mk key.text).components

theorem components_eq (key : Key) :
    key.components = Component.lead '/' '.' key.text.toList ++ key.segments.map Component.ofSegment :=
  Path.components_eq ⟨key.text⟩

theorem components_of_isAbsolute {key : Key} (h : key.isAbsolute = true) :
    key.components = .root :: key.segments.map Component.ofSegment := by
  have hlead : Component.lead '/' '.' key.text.toList = [.root] := if_pos (beq_iff_eq.mp h)
  rw [components_eq, hlead, List.singleton_append]

/-- Only what begins at the root has the root among its components. -/
theorem root_notMem_components {key : Key} (h : key.isAbsolute = false) : .root ∉ key.components := by
  rw [components_eq, List.mem_append, not_or]
  constructor
  · rw [Component.lead, if_neg (beq_eq_false_iff_ne.mp h)]
    split <;> simp
  · intro hmem
    obtain ⟨s, -, hs⟩ := List.mem_map.mp hmem
    exact (Path.ofSegment_ne s).1 hs

/-- A directory at the root holds the keys whose components begin with its own. -/
theorem isPrefix_components_iff {directory key : Key} (h : directory.isAbsolute = true) :
    directory.components <+: key.components ↔ directory.Holds key := by
  rw [Holds, h]
  cases hkey : key.isAbsolute with
  | true =>
    rw [components_of_isAbsolute h, components_of_isAbsolute hkey, List.cons_prefix_cons]
    refine and_congr (by simp) ⟨fun hbegins => ?_, fun hbegins => hbegins.map _⟩
    have hback := hbegins.map fun c : Component => c.text.toList
    rwa [Component.map_text_ofSegment, Component.map_text_ofSegment] at hback
  | false =>
    refine iff_of_false (fun hbegins => root_notMem_components hkey (hbegins.subset ?_)) (by simp)
    rw [components_of_isAbsolute h]
    exact List.mem_cons_self

theorem isWithin_rooted_iff (p : Path) {directory : Path} (h : directory.key.isAbsolute = true) :
    p.key.isWithin directory.key = true ↔ directory.key.components <+: p.key.components := by
  rw [isPrefix_components_iff h, isWithin_iff]
  refine and_iff_left fun hcurrent => ?_
  rw [hcurrent] at h
  exact absurd h (by decide)

/-- A key that goes on after that of a directory within the same name is not below it. -/
theorem not_isWithin_sibling {p directory : Path} (h : directory.key.isAbsolute = true)
    (hroot : directory.key ≠ ⟨"/"⟩) {c : Char} (hc : c ≠ '/') {rest : List Char}
    (htext : p.key.text.toList = directory.key.text.toList ++ c :: rest) :
    p.key.isWithin directory.key = false := by
  rw [Bool.eq_false_iff, Ne, isWithin_iff, not_and]
  rintro ⟨habsolute, more, hmore⟩
  -- both keys are written as their segments, and those of `p` go on after those of the directory
  have hdirectory := directory.text_key
  have hp := p.text_key
  rw [directory.segments_key, p.segments_key] at hmore
  rw [← p.isAbsolute_key, ← habsolute, ← hmore, htext] at hp
  rw [← directory.isAbsolute_key] at hdirectory
  cases more with
  | nil =>
    rw [List.append_nil, ← hdirectory] at hp
    exact absurd (congrArg List.length hp) (by simp)
  | cons s others =>
    have hne : directory.normalSegments.map Text.lower ≠ [] := by
      intro hempty
      rw [h, hempty] at hdirectory
      exact hroot (congrArg Key.mk (String.toList_inj.mp hdirectory))
    rw [render_append hne (List.cons_ne_nil _ _) directory.plain_key, ← hdirectory,
      List.append_cancel_left_eq, List.cons_eq_cons] at hp
    exact absurd hp.1 hc

end Key

namespace Index

/-! ## Keys of records -/

/-- Every record has the key of a path. -/
def Keyed (index : Index) : Prop := ∀ f ∈ index.files, ∃ p : Path, f.key = p.key

theorem keyed_after (changes : List Change) : (after changes).Keyed :=
  fun f hf => (recorded_after changes f hf).exists_key

/-! ## The removal -/

/-- Removing a directory at the root, however it is written, takes away the records below it and leaves all
others in their order, with a name table that lists their keywords. So libraries with a plain name stay, and
the records of a directory whose name goes on. -/
theorem reset_rooted (changes : List Change) {directory : Path}
    (h : beginsWithSlash directory.text.toList = true) :
    let index := after changes
    let later := index.reset (some directory)
    later.files = index.files.filter (fun f => ¬ directory.key.components <+: f.key.components) ∧
      later.names.WellFormed ∧ (∀ name, later.names.ids name = idsNamed later.files name) ∧
      (∀ f ∈ index.files, f.key.isAbsolute = false → f ∈ later.files) ∧
      ∀ f ∈ index.files, ∀ c rest, c ≠ '/' → directory.key ≠ ⟨"/"⟩ →
        f.key.text.toList = directory.key.text.toList ++ c :: rest → f ∈ later.files := by
  intro index later
  have hrooted : directory.key.isAbsolute = true := by rw [directory.isAbsolute_key, h]
  have hbelow : ∀ f ∈ index.files, f.key.isWithin directory.key = true ↔
      directory.key.components <+: f.key.components := by
    intro f hf
    obtain ⟨p, hp⟩ := keyed_after changes f hf
    rw [hp]
    exact Key.isWithin_rooted_iff p hrooted
  have hkept : ∀ f ∈ index.files, f.key.isWithin directory.key = false → f ∈ later.files := by
    intro f hf houtside
    refine List.mem_filter.mpr ⟨hf, ?_⟩
    rw [Path.key_normalize, houtside, Bool.not_false]
  refine ⟨List.filter_congr fun f hf => ?_, NameTable.wellFormed_ofFiles _, NameTable.ids_ofFiles _,
    fun f hf hplain => hkept f hf ?_, fun f hf c rest hc hroot htext => hkept f hf ?_⟩
  · rw [Path.key_normalize, Bool.eq_iff_iff, Bool.not_eq_true', decide_eq_true_eq, ← hbelow f hf,
      Bool.not_eq_true]
  · rw [Bool.eq_false_iff, Ne, hbelow f hf, Key.isPrefix_components_iff hrooted, Key.Holds, hrooted,
      hplain]
    simp
  · obtain ⟨p, hp⟩ := keyed_after changes f hf
    rw [hp] at htext ⊢
    exact Key.not_isWithin_sibling hrooted hroot hc htext

/-- A directory in another spelling: beside it stand a directory whose name goes on and a library. -/
theorem reset_rooted_respelled :
    let table := Robot.parse "*** Keywords ***\nA\n".toList
    let changes : List Change := [.addTable table ⟨"/proj/a.robot"⟩, .addTable table ⟨"/project2/c.robot"⟩,
      .addLibrary table "BuiltIn" none none, .addTable table ⟨"/Proj/Sub/b.robot"⟩]
    let directory : Path := ⟨"\\PROJ//./sub\\..\\"⟩
    beginsWithSlash directory.text.toList = true ∧
      ((after changes).reset (some directory)).files.map (·.key.text) = ["/project2/c.robot", "builtin"] ∧
      (after changes).files.filter (fun f => ¬ directory.key.components <+: f.key.components) =
        ((after changes).reset (some directory)).files := by
  intro table changes directory
  have h : beginsWithSlash directory.text.toList = true := by decide +kernel
  exact ⟨h, by decide +kernel, (reset_rooted changes h).1.symm⟩

end Index

end KeywordIndex
