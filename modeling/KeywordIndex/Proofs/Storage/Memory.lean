import KeywordIndex.Proofs.Path.Raw
import KeywordIndex.Proofs.Storage.Reading
import KeywordIndex.Proofs.Text.ByteOrder
import Mathlib.Data.List.Nodup
import Mathlib.Data.String.Basic

namespace KeywordIndex

/-! # Directories in memory

Writing and deleting keep the files in the order of their paths (`ordered_writeAt`, `ordered_deleteAt`), so the
files of one directory stand together, and those of each of its entries do. Its names are listed in the
order of the files (`list_of_below`), and taking the files name by name is taking them as they stand
(`flatMap_dropRepeated`).
-/

/-- Names that are texts stand in the order of the texts. -/
theorem Component.compare_name (a b : String) : compare (name a) (name b) = compare a b :=
  Text.compare_encode a b

namespace MemoryFile

/-- The names on the way from the root to the file. -/
def names (f : MemoryFile) : List String := f.path.tail.map Component.text

/-- The path of the file in its normal form. -/
def location (f : MemoryFile) : Path := .ofNames f.names

/-- A walk that takes the entries of each directory in the order of their names comes to `f` before `g`:
their ways part at two entries of one directory. -/
def Before (f g : MemoryFile) : Prop :=
  ∃ directory a b rest other,
    f.names = directory ++ a :: rest ∧ g.names = directory ++ b :: other ∧ a < b

end MemoryFile

namespace MemoryStorage

/-! ## Names that repeat -/

theorem mem_dropRepeated {names : List String} {name : String} :
    name ∈ dropRepeated names ↔ name ∈ names := by
  fun_induction dropRepeated names with
  | case1 => rfl
  | case2 => rfl
  | case3 a rest ih => simp [ih]
  | case4 a b rest h ih => simp [ih]

section Sorted

variable {le : String → String → Prop} [Std.Antisymm le]

/-- In a sorted list equal names are neighbours, so no name is left twice. -/
theorem pairwise_dropRepeated {names : List String} (h : names.Pairwise le) :
    (dropRepeated names).Pairwise fun a b => le a b ∧ a ≠ b := by
  fun_induction dropRepeated names with
  | case1 => exact List.Pairwise.nil
  | case2 => exact List.pairwise_singleton _ _
  | case3 a rest ih => exact ih (List.pairwise_cons.mp h).2
  | case4 a b rest hne ih =>
    obtain ⟨hfirst, hrest⟩ := List.pairwise_cons.mp h
    refine List.pairwise_cons.mpr ⟨fun name hname => ?_, ih hrest⟩
    have hmem := mem_dropRepeated.mp hname
    refine ⟨hfirst name hmem, ?_⟩
    rintro rfl
    -- the name after it would be between two equal names
    rcases List.mem_cons.mp hmem with rfl | hmem
    · exact hne rfl
    · exact hne (Std.Antisymm.antisymm _ _ (hfirst b (by simp)) ((List.pairwise_cons.mp hrest).1 _ hmem))

/-- The first name stays, and does not come again. -/
theorem exists_dropRepeated {b : String} {rest : List String} (h : (b :: rest).Pairwise le) :
    ∃ others, dropRepeated (b :: rest) = b :: others ∧ b ∉ others := by
  have hstrict := pairwise_dropRepeated h
  cases hnames : dropRepeated (b :: rest) with
  | nil =>
    have hmem : b ∈ dropRepeated (b :: rest) := mem_dropRepeated.mpr (by simp)
    rw [hnames] at hmem
    cases hmem
  | cons first others =>
    rw [hnames] at hstrict
    obtain ⟨hfirst, -⟩ := List.pairwise_cons.mp hstrict
    have hsame : first = b := by
      by_contra hne
      have hlater : first ∈ rest :=
        (List.mem_cons.mp (mem_dropRepeated.mp (hnames ▸ List.mem_cons_self : first ∈ _))).resolve_left hne
      have hmem : b ∈ others :=
        (List.mem_cons.mp (hnames ▸ mem_dropRepeated.mpr List.mem_cons_self : b ∈ first :: others)).resolve_left
          fun e => hne e.symm
      exact hne (Std.Antisymm.antisymm _ _ (hfirst b hmem).1 ((List.pairwise_cons.mp h).1 first hlater))
    subst hsame
    exact ⟨others, rfl, fun hmem => (hfirst _ hmem).2 rfl⟩

/-- Sorted elements taken name by name are the elements as they stand. -/
theorem flatMap_dropRepeated {α : Type} (nameOf : α → String) (as : List α)
    (h : (as.map nameOf).Pairwise le) :
    (dropRepeated (as.map nameOf)).flatMap (fun name => as.filter (nameOf · = name)) = as := by
  -- an element in front is not among those of another name
  have front (a : α) (as : List α) {names : List String} (hnames : nameOf a ∉ names) :
      names.flatMap (fun name => (a :: as).filter (nameOf · = name)) =
        names.flatMap fun name => as.filter (nameOf · = name) :=
    List.flatMap_congr fun name hname => List.filter_cons_of_neg <| by
      simpa using fun e : nameOf a = name => hnames (e ▸ hname)
  induction as with
  | nil => rfl
  | cons a rest ih =>
    obtain ⟨hfirst, hrest⟩ := List.pairwise_cons.mp h
    cases rest with
    | nil => simp [dropRepeated]
    | cons b rest =>
      have ih := ih hrest
      obtain ⟨others, hothers, hfresh⟩ := exists_dropRepeated hrest
      simp only [List.map_cons] at hothers ih
      rw [List.map_cons, List.map_cons, dropRepeated]
      by_cases hsame : nameOf a = nameOf b
      · rw [if_pos hsame, hothers, List.flatMap_cons, front a _ (hsame ▸ hfresh),
          List.filter_cons_of_pos (by simpa using hsame), List.cons_append]
        rw [hothers, List.flatMap_cons] at ih
        rw [ih]
      · -- its name does not come again
        have hfresh : nameOf a ∉ dropRepeated (nameOf b :: rest.map nameOf) := by
          have hstrict := pairwise_dropRepeated h
          rw [List.map_cons, List.map_cons, dropRepeated, if_neg hsame] at hstrict
          exact fun hmem => ((List.pairwise_cons.mp hstrict).1 _ hmem).2 rfl
        have hnone : (b :: rest).filter (nameOf · = nameOf a) = [] := by
          refine List.filter_eq_nil_iff.mpr fun c hc => ?_
          have hmem : nameOf c ∈ dropRepeated (nameOf b :: rest.map nameOf) :=
            mem_dropRepeated.mpr (List.mem_map_of_mem hc)
          simpa using fun e : nameOf c = nameOf a => hfresh (e ▸ hmem)
        rw [if_neg hsame, List.flatMap_cons, front a _ hfresh, List.filter_cons_of_pos (by simp), hnone, ih]
        rfl

end Sorted

/-! ## The order of files -/

/-- The files stand in the order of their paths. -/
def Ordered (m : MemoryStorage) : Prop := m.files.Pairwise fun f g => compare f.path g.path = .lt

theorem mem_putIn {file f : MemoryFile} {files : List MemoryFile} (h : f ∈ putIn file files) :
    f = file ∨ f ∈ files := by
  induction files with
  | nil => exact Or.inl (List.mem_singleton.mp h)
  | cons other rest ih =>
    rw [putIn] at h
    split at h
    · exact List.mem_cons.mp h
    · exact (List.mem_cons.mp h).imp_right (List.mem_cons_of_mem _)
    · rcases List.mem_cons.mp h with rfl | h
      · exact Or.inr List.mem_cons_self
      · exact (ih h).imp_right (List.mem_cons_of_mem _)

theorem ordered_writeAt {m : MemoryStorage} (h : m.Ordered) (path : List Component) (content : Text.Bytes) :
    (m.writeAt path content).Ordered := by
  have general : ∀ (file : MemoryFile) (files : List MemoryFile),
      files.Pairwise (fun f g => compare f.path g.path = .lt) →
      (putIn file files).Pairwise fun f g => compare f.path g.path = .lt := by
    intro file files h
    induction files with
    | nil => exact List.pairwise_singleton _ _
    | cons other rest ih =>
      obtain ⟨hother, hrest⟩ := List.pairwise_cons.mp h
      rw [putIn]
      split
      · next hlt =>
        refine List.pairwise_cons.mpr ⟨fun f hf => ?_, h⟩
        rcases List.mem_cons.mp hf with rfl | hf
        · exact hlt
        · exact Std.TransCmp.lt_trans hlt (hother f hf)
      · next heq =>
        have hpath := Std.LawfulEqOrd.eq_of_compare heq
        exact List.pairwise_cons.mpr ⟨fun f hf => hpath ▸ hother f hf, hrest⟩
      · next hgt =>
        refine List.pairwise_cons.mpr ⟨fun f hf => ?_, ih hrest⟩
        rcases mem_putIn hf with rfl | hf
        · exact Std.OrientedCmp.gt_iff_lt.mp hgt
        · exact hother f hf
  exact general _ _ h

theorem ordered_deleteAt {m : MemoryStorage} (h : m.Ordered) (path : List Component) :
    (m.deleteAt path).Ordered :=
  List.Pairwise.filter _ h

theorem Ordered.nodup_paths {m : MemoryStorage} (h : m.Ordered) : (m.files.map (·.path)).Nodup := by
  refine List.pairwise_map.mpr (h.imp fun {f g} hlt hpath => ?_)
  rw [hpath, Std.compare_self] at hlt
  cases hlt

/-- A file is found at its path. -/
theorem Ordered.file?_of_mem {m : MemoryStorage} (h : m.Ordered) {f : MemoryFile} (hf : f ∈ m.files) :
    m.file? f.path = some f := by
  cases hfound : m.file? f.path with
  | none => exact absurd (List.find?_eq_none.mp hfound f hf) (by simp)
  | some g =>
    have hpath : g.path = f.path := by simpa using List.find?_some hfound
    rw [List.inj_on_of_nodup_map h.nodup_paths (List.mem_of_find?_eq_some hfound) hf hpath]

/-! ## Entries of directories -/

theorem next?_eq_some_iff {directory path : List Component} {c : Component} :
    next? directory path = some c ↔ ∃ rest, path = directory ++ c :: rest := by
  fun_induction next? directory path with
  | case1 a path => simp
  | case2 => simp
  | case3 a directory path ih => simpa using ih
  | case4 a directory b path h => simp [Ne.symm h]
  | case5 => simp

/-- The files below a directory, in their order. -/
def below (m : MemoryStorage) (directory : List Component) : List MemoryFile :=
  m.files.filter fun f => (next? directory f.path).isSome

theorem mem_below {m : MemoryStorage} {directory : List Component} {f : MemoryFile} :
    f ∈ m.below directory ↔ f ∈ m.files ∧ ∃ c rest, f.path = directory ++ c :: rest := by
  rw [below, List.mem_filter, Option.isSome_iff_exists]
  simp only [next?_eq_some_iff]

/-- The name of the entry of a directory that a file is or lies below. -/
def entryName (directory : List Component) (f : MemoryFile) : String :=
  ((next? directory f.path).map Component.text).getD ""

theorem entryName_eq {directory rest : List Component} {c : Component} {f : MemoryFile}
    (h : f.path = directory ++ c :: rest) : entryName directory f = c.text := by
  rw [entryName, next?_eq_some_iff.mpr ⟨rest, h⟩]
  rfl

/-- A directory lists the names of the entries that its files are or lie below. -/
theorem list_of_below {m : MemoryStorage} {directory : List Component} (h : m.below directory ≠ []) :
    m.listAt directory = .ok (dropRepeated ((m.below directory).map (entryName directory))) := by
  have hnames : (m.files.filterMap fun f => (next? directory f.path).map Component.text) =
      (m.below directory).map (entryName directory) := by
    unfold below
    induction m.files with
    | nil => rfl
    | cons f rest ih =>
      cases hnext : next? directory f.path with
      | none => simp [hnext, ih]
      | some c => simp [hnext, ih, entryName]
  rw [listAt, hnames]
  split
  · next hnil => exact absurd (List.map_eq_nil_iff.mp hnil) h
  · rfl

/-- Below a directory that is there are files. -/
theorem below_of_isDirectory {m : MemoryStorage} {directory : List Component}
    (hroot : (m.statAt directory).toOption.any (·.isDirectory) = true) : m.below directory ≠ [] := by
  unfold statAt at hroot
  split at hroot
  · cases hroot
  · split at hroot
    · next hany =>
      obtain ⟨f, hf, hnext⟩ := List.any_eq_true.mp hany
      exact List.ne_nil_of_mem (List.mem_filter.mpr ⟨hf, hnext⟩)
    · cases hroot

theorem compare_append (directory p q : List Component) :
    compare (directory ++ p) (directory ++ q) = compare p q := by
  rw [List.compare_eq_compareLex]
  induction directory with
  | nil => rfl
  | cons c rest ih =>
    rw [List.cons_append, List.cons_append, List.compareLex_cons_cons, Std.compare_self, ih]
    rfl

/-- The entries of a directory stand in their order, each as often as files are or lie below it. -/
theorem Ordered.entries {m : MemoryStorage} (h : m.Ordered) (directory : List Component) :
    (m.below directory).Pairwise fun f g => ∀ c d rest other, f.path = directory ++ c :: rest →
      g.path = directory ++ d :: other → (compare c d).isLE = true := by
  have hordered : (m.below directory).Pairwise fun f g => compare f.path g.path = .lt :=
    List.Pairwise.filter _ h
  refine hordered.imp fun {f g} hlt c d rest other hfpath hgpath => ?_
  rw [hfpath, hgpath, compare_append, List.compare_eq_compareLex, List.compareLex_cons_cons,
    Ordering.then_eq_lt] at hlt
  rcases hlt with hlt | ⟨heq, -⟩
  · rw [hlt]
    rfl
  · rw [heq]
    rfl

/-- The files that the entry of a name in a directory is or holds. -/
def atEntry (m : MemoryStorage) (directory : List Component) (name : String) : List MemoryFile :=
  (m.below directory).filter (entryName directory · = name)

theorem length_le_depth (m : MemoryStorage) {f : MemoryFile} (hf : f ∈ m.files) :
    f.path.length ≤ m.toStorage.depth := by
  have general : ∀ (files : List MemoryFile) (depth : Nat),
      depth ≤ files.foldl (fun depth f => max depth f.path.length) depth ∧
        ∀ f ∈ files, f.path.length ≤ files.foldl (fun depth f => max depth f.path.length) depth := by
    intro files
    induction files with
    | nil => exact fun depth => ⟨Nat.le_refl _, fun _ hf => nomatch hf⟩
    | cons g rest ih =>
      intro depth
      obtain ⟨hle, hrest⟩ := ih (max depth g.path.length)
      refine ⟨(Nat.le_max_left _ _).trans hle, fun f hf => ?_⟩
      rcases List.mem_cons.mp hf with rfl | hf
      · exact (Nat.le_max_right _ _).trans hle
      · exact hrest f hf
  exact (general m.files 0).2 f hf

/-! ## Coherent storages -/

variable {m : MemoryStorage}

/-- Files in the order of their paths, at paths that can be written. -/
structure Kept (m : MemoryStorage) : Prop where
  ordered : m.Ordered
  spelled : ∀ f ∈ m.files, ∃ path : RawPath, path.components = f.path

/-- The names below a directory are texts. -/
def TextBelow (m : MemoryStorage) (directory : List Component) : Prop :=
  ∀ f ∈ m.files, ∀ below, f.path = directory ++ below → ∀ c ∈ below, c.isText = true

namespace TextBelow

variable {f : MemoryFile} {directory rest : List Component} {c : Component}

theorem entry (h : m.TextBelow directory) (hf : f ∈ m.files) (hpath : f.path = directory ++ c :: rest) :
    c.isText = true := h f hf _ hpath c List.mem_cons_self

theorem inner (h : m.TextBelow directory) (c : Component) : m.TextBelow (directory ++ [c]) := by
  intro f hf below hpath d hd
  rw [List.append_assoc, List.singleton_append] at hpath
  exact h f hf _ hpath d (List.mem_cons_of_mem _ hd)

end TextBelow

/-- Files none of which is a directory of another. -/
structure Coherent (m : MemoryStorage) : Prop extends m.Kept where
  apart : ∀ f ∈ m.files, ∀ g ∈ m.files, f.path <+: g.path → f.path = g.path

namespace Coherent

variable {f g : MemoryFile} {directory rest other : List Component} {c d : Component}

theorem eq_of_isPrefix (h : m.Coherent) (hf : f ∈ m.files) (hg : g ∈ m.files)
    (hbegins : f.path <+: g.path) : f = g :=
  List.inj_on_of_nodup_map h.ordered.nodup_paths hf hg (h.apart f hf g hg hbegins)

/-- No file is where a directory is. -/
theorem path_ne (h : m.Coherent) (hf : f ∈ m.files) (hg : g ∈ m.files)
    (hpath : f.path = directory ++ c :: rest) : g.path ≠ directory := by
  intro hgpath
  have hsame := h.apart g hg f hf (by rw [hgpath, hpath]; exact List.prefix_append _ _)
  rw [hgpath, hpath] at hsame
  simpa using congrArg List.length hsame

/-- Entries are told by their names. -/
theorem ofText_text (h : m.Coherent) (htext : m.TextBelow directory) (hf : f ∈ m.files)
    (hpath : f.path = directory ++ c :: rest) : Component.ofText c.text = c := by
  obtain ⟨path, hcomponents⟩ := h.spelled f hf
  exact RawPath.ofText_text (hcomponents.trans hpath) (htext.entry hf hpath)

/-- A path to an entry of a directory. -/
theorem components_join (h : m.Coherent) {directory : RawPath} (htext : m.TextBelow directory.components)
    (hf : f ∈ m.files) (hpath : f.path = directory.components ++ c :: rest) :
    (directory.join c.text).components = directory.components ++ [c] := by
  obtain ⟨path, hcomponents⟩ := h.spelled f hf
  exact RawPath.components_join_text (hcomponents.trans hpath) (htext.entry hf hpath)

theorem mem_atEntry (h : m.Coherent) (htext : m.TextBelow directory) (hf : f ∈ m.files)
    (hpath : f.path = directory ++ c :: rest) :
    g ∈ m.atEntry directory c.text ↔ g ∈ m.files ∧ ∃ other, g.path = directory ++ c :: other := by
  rw [atEntry, List.mem_filter, mem_below, decide_eq_true_eq]
  constructor
  · rintro ⟨⟨hg, d, other, hgpath⟩, hname⟩
    rw [entryName_eq hgpath] at hname
    have hsame : d = c := by rw [← h.ofText_text htext hg hgpath, hname, h.ofText_text htext hf hpath]
    exact ⟨hg, other, hsame ▸ hgpath⟩
  · rintro ⟨hg, other, hgpath⟩
    exact ⟨⟨hg, c, other, hgpath⟩, entryName_eq hgpath⟩

/-- A file is alone at its entry. -/
theorem atEntry_file (h : m.Coherent) (htext : m.TextBelow directory) (hf : f ∈ m.files)
    (hpath : f.path = directory ++ [c]) :
    m.atEntry directory c.text = [f] := by
  have hmem : f ∈ m.atEntry directory c.text := (h.mem_atEntry htext hf hpath).mpr ⟨hf, [], hpath⟩
  have hall : ∀ g ∈ m.atEntry directory c.text, g = f := by
    intro g hg
    obtain ⟨hg, other, hgpath⟩ := (h.mem_atEntry htext hf hpath).mp hg
    exact (h.eq_of_isPrefix hf hg ⟨other, by rw [hpath, hgpath, List.append_assoc]; rfl⟩).symm
  have hnodup : (m.atEntry directory c.text).Nodup :=
    ((List.Nodup.of_map _ h.ordered.nodup_paths).filter _).filter _
  generalize m.atEntry directory c.text = files at hmem hall hnodup
  cases files with
  | nil => cases hmem
  | cons g rest =>
    obtain rfl := hall g (by simp)
    cases rest with
    | nil => rfl
    | cons other rest => exact absurd (hall other (by simp)) fun e => by simp [e] at hnodup

/-- A directory holds at its entry what is below it. -/
theorem atEntry_directory (h : m.Coherent) (htext : m.TextBelow directory) (hf : f ∈ m.files)
    (hpath : f.path = directory ++ c :: d :: rest) :
    m.atEntry directory c.text = m.below (directory ++ [c]) := by
  have hbelow : f.path = (directory ++ [c]) ++ d :: rest := by
    rw [hpath, List.append_assoc, List.singleton_append]
  unfold atEntry below
  rw [List.filter_filter]
  refine List.filter_congr fun g hg => ?_
  rw [Bool.eq_iff_iff, Bool.and_eq_true, decide_eq_true_eq]
  constructor
  · rintro ⟨hname, hisbelow⟩
    obtain ⟨-, other, hgpath⟩ := (h.mem_atEntry htext hf hpath).mp
      (List.mem_filter.mpr ⟨List.mem_filter.mpr ⟨hg, hisbelow⟩, by simpa using hname⟩)
    cases other with
    | nil => exact absurd hgpath (h.path_ne hf hg hbelow)
    | cons e other =>
      rw [next?_eq_some_iff.mpr ⟨other, by rw [hgpath, List.append_assoc]; rfl⟩]
      rfl
  · intro hisbelow
    obtain ⟨e, hnext⟩ := Option.isSome_iff_exists.mp hisbelow
    obtain ⟨other, hgpath⟩ := next?_eq_some_iff.mp hnext
    rw [List.append_assoc, List.singleton_append] at hgpath
    exact ⟨entryName_eq hgpath, by rw [next?_eq_some_iff.mpr ⟨_, hgpath⟩]; rfl⟩

theorem statAt_file (h : m.Coherent) (hf : f ∈ m.files) :
    m.statAt f.path = .ok ⟨true, false, f.content.length⟩ := by
  rw [statAt, h.ordered.file?_of_mem hf]

theorem stat_file (h : m.Coherent) (hf : f ∈ m.files) {path : Path} (hpath : path.components = f.path) :
    m.toStorage.HasFile path f.content :=
  MemoryStorage.hasFile (hpath ▸ h.ordered.file?_of_mem hf)

theorem stat_directory (h : m.Coherent) {path : List Component} (hbelow : m.below path ≠ []) :
    m.statAt path = .ok ⟨false, true, 0⟩ := by
  obtain ⟨f, hf⟩ := List.exists_mem_of_ne_nil _ hbelow
  obtain ⟨hf, c, rest, hfpath⟩ := mem_below.mp hf
  have hnone : m.file? path = none := by
    refine List.find?_eq_none.mpr fun g hg => ?_
    simpa using h.path_ne hf hg hfpath
  have hany : (m.files.any fun f => (next? path f.path).isSome) = true :=
    List.any_eq_true.mpr ⟨f, hf, by rw [next?_eq_some_iff.mpr ⟨rest, hfpath⟩]; rfl⟩
  simp only [statAt, hnone, hany, if_true]

end Coherent

/-! ## Tidy storages -/

/-- Files whose paths are UTF-8 and absolute, made of plain names, none a directory of another, and told apart
by their keys. -/
structure Tidy (m : MemoryStorage) : Prop where
  ordered : m.Ordered
  path_eq : ∀ f ∈ m.files, f.path = .root :: f.names.map .name
  plain : ∀ f ∈ m.files, ∀ name ∈ f.names, PlainName name
  apart : ∀ f ∈ m.files, ∀ g ∈ m.files, f.path <+: g.path → f.path = g.path
  keys : m.files.Pairwise fun f g => f.location.key ≠ g.location.key

namespace Tidy

theorem components_location (h : m.Tidy) {f : MemoryFile} (hf : f ∈ m.files) :
    f.location.components = f.path :=
  (Path.components_ofNames (h.plain f hf)).trans (h.path_eq f hf).symm

theorem coherent (h : m.Tidy) : m.Coherent where
  ordered := h.ordered
  spelled := fun f hf => ⟨f.location.raw, (Path.components_raw _).trans (h.components_location hf)⟩
  apart := h.apart

theorem textBelow (h : m.Tidy) (directory : List Component) : m.TextBelow directory := by
  intro f hf below hpath c hc
  have hmem : c ∈ f.path := hpath ▸ List.mem_append_right _ hc
  rw [h.path_eq f hf] at hmem
  rcases List.mem_cons.mp hmem with rfl | hmem
  · rfl
  · obtain ⟨name, -, rfl⟩ := List.mem_map.mp hmem
    rfl

/-- A path to an entry of a directory. -/
theorem components_join (h : m.Tidy) {f : MemoryFile} (hf : f ∈ m.files) {directory : Path}
    {c : Component} {rest : List Component} (hpath : f.path = directory.components ++ c :: rest) :
    (directory.join ⟨c.text⟩).components = directory.components ++ [c] := by
  rw [← Path.components_raw directory] at hpath
  have hjoin := h.coherent.components_join (h.textBelow _) hf hpath
  rwa [Path.join_raw, Path.components_raw, Path.components_raw] at hjoin

/-- The entries of the top are the root, and those below are plain names. -/
theorem entry_cases (h : m.Tidy) {f : MemoryFile} (hf : f ∈ m.files) {directory rest : List Component}
    {c : Component} (hpath : f.path = directory ++ c :: rest) :
    directory = [] ∧ c = .root ∨ directory ≠ [] ∧ ∃ name, c = .name name := by
  rw [h.path_eq f hf] at hpath
  cases directory with
  | nil => exact Or.inl ⟨rfl, (List.cons.inj hpath).1.symm⟩
  | cons first outer =>
    have hmem : c ∈ f.names.map Component.name := by
      rw [(List.cons.inj hpath).2]
      simp
    obtain ⟨name, -, rfl⟩ := List.mem_map.mp hmem
    exact Or.inr ⟨by simp, name, rfl⟩

/-- The names of the entries of a directory stand in their order. -/
theorem sorted_entryNames (h : m.Tidy) (directory : List Component) :
    ((m.below directory).map (entryName directory)).Pairwise (· ≤ ·) := by
  refine List.pairwise_map.mpr ((h.ordered.entries directory).imp_of_mem fun {f g} hf hg hle => ?_)
  obtain ⟨hf, c, rest, hfpath⟩ := mem_below.mp hf
  obtain ⟨hg, d, other, hgpath⟩ := mem_below.mp hg
  have hle := hle c d rest other hfpath hgpath
  rw [entryName_eq hfpath, entryName_eq hgpath]
  rcases h.entry_cases hf hfpath with ⟨hnil, rfl⟩ | ⟨hne, name, rfl⟩
  · rcases h.entry_cases hg hgpath with ⟨-, rfl⟩ | ⟨hne, -⟩
    · exact le_rfl
    · exact absurd hnil hne
  · rcases h.entry_cases hg hgpath with ⟨hnil, -⟩ | ⟨-, other, rfl⟩
    · exact absurd hnil hne
    · rw [Component.compare_name] at hle
      exact compare_le_iff_le.mp (Ordering.isLE_iff_ne_gt.mp hle)

/-! ## What is at a path -/

theorem stat_directory (h : m.Tidy) {path : Path} (hbelow : m.below path.components ≠ []) :
    m.stat path = .ok ⟨false, true, 0⟩ := h.coherent.stat_directory hbelow

theorem key_eq (h : m.Tidy) {f : MemoryFile} (hf : f ∈ m.files) {path : Path}
    (hpath : path.components = f.path) : path.normalize = f.location ∧ path.key = f.location.key := by
  have hcomponents : path.components = .root :: f.names.map .name := hpath.trans (h.path_eq f hf)
  exact ⟨Path.normalize_of_components (h.plain f hf) hcomponents,
    Path.key_of_components (h.plain f hf) hcomponents⟩

/-- The way to a file leads through absolute paths of plain names. -/
theorem exists_names (h : m.Tidy) {f : MemoryFile} (hf : f ∈ m.files) {path : Path}
    (hne : path.components ≠ []) (hbegins : path.components <+: f.path) :
    ∃ outer, outer <+: f.names ∧ path.key = (Path.ofNames outer).key ∧ ∀ name ∈ outer, PlainName name := by
  rw [h.path_eq f hf] at hbegins
  rcases List.prefix_cons_iff.mp hbegins with hnil | ⟨steps, hsteps, hbegins⟩
  · exact absurd hnil hne
  · have hnames : steps = (f.names.take steps.length).map .name := by
      rw [List.map_take]
      exact List.prefix_iff_eq_take.mp hbegins
    have houter : f.names.take steps.length <+: f.names := List.take_prefix _ _
    have hplain : ∀ name ∈ f.names.take steps.length, PlainName name :=
      fun name hname => h.plain f hf name (houter.subset hname)
    exact ⟨_, houter, Path.key_of_components hplain (hnames ▸ hsteps), hplain⟩

/-- What holds a directory on the way to a file holds the file. -/
theorem isWithin_below (h : m.Tidy) {f : MemoryFile} (hf : f ∈ m.files) {path directory : Path}
    (hne : path.components ≠ []) (hbegins : path.components <+: f.path)
    (hwithin : path.key.isWithin directory.key = true) :
    f.location.key.isWithin directory.key = true := by
  obtain ⟨outer, houter, hkey, hplain⟩ := h.exists_names hf hne hbegins
  rw [hkey, Path.isWithin_of_absolute _ (Path.segments_key_ofNames hplain).1] at hwithin
  have habsolute := (Path.segments_key_ofNames (h.plain f hf)).1
  exact (Path.isWithin_of_absolute directory habsolute).mpr
    (Path.holds_of_isPrefix (h.plain f hf) houter hwithin)

theorem isWithin_location_iff (h : m.Tidy) {f : MemoryFile} (hf : f ∈ m.files) (directory : Path) :
    f.location.key.isWithin directory.key = true ↔ directory.key.Holds f.location.key :=
  Path.isWithin_of_absolute directory (Path.segments_key_ofNames (h.plain f hf)).1

/-! ## The order of a walk -/

theorem parts_of_compare {names others : List String}
    (hlt : compare (names.map Component.name) (others.map Component.name) = .lt)
    (hapart : ¬ names <+: others) :
    ∃ directory a b rest other, names = directory ++ a :: rest ∧ others = directory ++ b :: other ∧ a < b := by
  rw [List.compare_eq_compareLex] at hlt
  induction names generalizing others with
  | nil => exact absurd List.nil_prefix hapart
  | cons a rest ih =>
    cases others with
    | nil => cases hlt
    | cons b other =>
      rw [List.map_cons, List.map_cons, List.compareLex_cons_cons, Ordering.then_eq_lt] at hlt
      rw [Component.compare_name] at hlt
      rcases hlt with hlt | ⟨heq, hlt⟩
      · exact ⟨[], a, b, rest, other, rfl, rfl, compare_lt_iff_lt.mp hlt⟩
      · obtain rfl := compare_eq_iff_eq.mp heq
        obtain ⟨directory, c, d, inner, outer, rfl, rfl, hless⟩ :=
          ih hlt fun hbegins => hapart (List.cons_prefix_cons.mpr ⟨rfl, hbegins⟩)
        exact ⟨a :: directory, c, d, inner, outer, rfl, rfl, hless⟩

/-- Files stand in the order in which a walk comes to them. -/
theorem pairwise_before (h : m.Tidy) : m.files.Pairwise MemoryFile.Before := by
  refine h.ordered.imp_of_mem fun {f g} hf hg hlt => ?_
  have hpaths : compare f.path g.path = .lt := hlt
  rw [h.path_eq f hf, h.path_eq g hg, ← List.singleton_append, ← List.singleton_append (l := List.map _ g.names),
    compare_append] at hlt
  refine parts_of_compare hlt fun hbegins => ?_
  have hsame := h.apart f hf g hg (by
    rw [h.path_eq f hf, h.path_eq g hg]
    exact List.cons_prefix_cons.mpr ⟨rfl, hbegins.map _⟩)
  rw [hsame, Std.compare_self] at hpaths
  cases hpaths

end Tidy

end MemoryStorage

end KeywordIndex
