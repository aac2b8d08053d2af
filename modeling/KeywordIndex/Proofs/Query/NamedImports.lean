import KeywordIndex.Proofs.Index.Origin
import KeywordIndex.Proofs.Index.Views
import KeywordIndex.Proofs.Path.FileName
import KeywordIndex.Query.Suggestion

namespace KeywordIndex

open Text

/-! # Imports found by name

An import without a link falls back on the records that have the name and the extension which its path
declares. The name is taken from the path as it is written, while resolving puts the path into normal form
first. So the fallback reaches the file that the path denotes unless a backslash stands in its last part
(`matchesName_target_iff`).
-/

/-! ## Names and extensions -/

namespace Text

theorem asciiLower_eq_backslash_iff {c : Char} : asciiLower c = '\\' ↔ c = '\\' := by
  rcases asciiLower_cases c with hsame | ⟨n, hn, rfl, hfolded⟩
  · rw [hsame]
  · have hletters : ∀ n ∈ List.range' 65 26, Char.ofNat (n + 32) ≠ '\\' ∧ Char.ofNat n ≠ '\\' := by decide
    rw [hfolded]
    exact iff_of_false (hletters n hn).1 (hletters n hn).2

theorem backslash_mem_map_asciiLower {cs : List Char} : '\\' ∈ cs.map asciiLower ↔ '\\' ∈ cs := by
  simp only [List.mem_map, asciiLower_eq_backslash_iff, exists_eq_right]

end Text

/-- Paths with equal stems and extensions have equal file names, up to the case of ASCII letters. -/
theorem Path.map_asciiLower_fileName {p q : Path} (hstem : asciiEqual p.stem q.stem = true)
    (hextension : asciiEqual p.dottedExtension q.dottedExtension = true) :
    (p.fileName?.getD "").toList.map asciiLower = (q.fileName?.getD "").toList.map asciiLower := by
  rw [← p.stem_append_dottedExtension, ← q.stem_append_dottedExtension, String.toList_append,
    String.toList_append, List.map_append, List.map_append, asciiEqual_iff.mp hstem,
    asciiEqual_iff.mp hextension]

theorem Path.stem_congr {p q : Path} (h : p.fileName? = q.fileName?) :
    p.stem = q.stem ∧ p.dottedExtension = q.dottedExtension := by
  simp only [stem, stem?, dottedExtension, extension?, h, and_self]

/-- Whether the target of an import is named as the import declares: the file name that is written has no
backslash in it, or there is none on either side. -/
def KeepsName (declared : String) (target : Path) : Prop :=
  (∃ name, (Path.mk declared).fileName? = some name ∧ '\\' ∉ name.toList) ∨
    (Path.mk declared).fileName? = none ∧ target.fileName? = none

/-- The stem and the extension that an import declares are those of its target up to the case of ASCII
letters if and only if its file name is kept. -/
theorem keepsName_iff (declared : String) (directory : Path) :
    KeepsName declared (importTarget declared directory) ↔
      asciiEqual (importTarget declared directory).stem (Path.mk declared).stem = true ∧
        asciiEqual (importTarget declared directory).dottedExtension
          (Path.mk declared).dottedExtension = true := by
  constructor
  · intro h
    have hsame : (importTarget declared directory).fileName? = (Path.mk declared).fileName? := by
      rcases h with ⟨name, hname, hbackslash⟩ | ⟨hdeclared, htarget⟩
      · rw [fileName?_importTarget hname hbackslash, hname]
      · rw [htarget, hdeclared]
    obtain ⟨hstem, hextension⟩ := Path.stem_congr hsame
    rw [hstem, hextension]
    exact ⟨asciiEqual_iff.mpr rfl, asciiEqual_iff.mpr rfl⟩
  · rintro ⟨hstem, hextension⟩
    have hnames := Path.map_asciiLower_fileName hstem hextension
    obtain ⟨p, hp⟩ := exists_importTarget_eq_normalize declared directory
    rw [hp] at hnames
    rw [hp, KeepsName]
    cases hdeclared : (Path.mk declared).fileName? with
    | some name =>
      refine Or.inl ⟨name, rfl, fun hmem => ?_⟩
      -- a backslash would stand in the target's file name as well
      rw [hdeclared, Option.getD_some] at hnames
      rw [← backslash_mem_map_asciiLower, ← hnames, backslash_mem_map_asciiLower] at hmem
      cases htarget : p.normalize.fileName? with
      | none =>
        rw [htarget] at hmem
        exact absurd hmem (by decide)
      | some other =>
        rw [htarget, Option.getD_some] at hmem
        exact Path.no_backslash_of_fileName?_normalize htarget hmem
    | none =>
      refine Or.inr ⟨rfl, ?_⟩
      rw [hdeclared] at hnames
      cases htarget : p.normalize.fileName? with
      | none => rfl
      | some other =>
        -- no file name is empty
        rw [htarget] at hnames
        have hempty : other.toList = [] := List.map_eq_nil_iff.mp hnames
        exact absurd (String.toList_eq_nil_iff.mp hempty) (Path.fileName?_ne_empty htarget)

namespace Query

/-! ## What an import brings in -/

/-- No record has the key of the import's link. -/
def LinkMissing (index : Index) (r : ResourceImport) : Prop := ∀ f ∈ index.files, r.resolved ≠ some f.key

/-- An import brings in the record that it is linked to, or, while its link is missing, all records with the
name and the extension that it declares. -/
def BringsIn (index : Index) (r : ResourceImport) (f : SourceFile) : Prop :=
  f ∈ index.files ∧ (r.resolved = some f.key ∨ LinkMissing index r ∧ r.matchesName f = true)

/-- The records that an import brings in, in the order of the index. -/
def broughtIn (index : Index) (r : ResourceImport) : List SourceFile :=
  match r.resolved.bind index.file? with
  | some target => [target]
  | none => index.files.filter r.matchesName

section BringsIn

variable {index : Index} {r : ResourceImport} {f : SourceFile} {key : Key}

theorem bind_file?_eq_none_iff : r.resolved.bind index.file? = none ↔ LinkMissing index r := by
  simp only [Option.bind_eq_none_iff, LinkMissing, Index.file?, List.find?_eq_none, decide_eq_true_eq]
  exact ⟨fun h f hf hlink => h f.key hlink f hf rfl, fun h key hlink f hf hkey => h f hf (hkey ▸ hlink)⟩

theorem importedKeys_eq (index : Index) (r : ResourceImport) :
    importedKeys index r = (broughtIn index r).map (·.key) := by
  have hlink : r.resolved.filter index.contains = (r.resolved.bind index.file?).map (·.key) := by
    cases hresolved : r.resolved with
    | none => rfl
    | some key =>
      rw [Option.filter_some, Option.bind_some, Index.contains]
      cases hfile : index.file? key with
      | none => rfl
      | some target => simp [(Index.mem_of_file? hfile).2]
  unfold importedKeys broughtIn
  rw [hlink]
  cases r.resolved.bind index.file? with
  | none => rfl
  | some target => rfl

theorem mem_broughtIn_iff (h : index.Consistent) : f ∈ broughtIn index r ↔ BringsIn index r f := by
  unfold broughtIn BringsIn
  split
  · next target hlink =>
    obtain ⟨key, hresolved, hfile⟩ := Option.bind_eq_some_iff.mp hlink
    obtain ⟨htarget, rfl⟩ := Index.mem_of_file? hfile
    have hpresent : ¬ LinkMissing index r := fun hmissing => hmissing target htarget hresolved
    rw [List.mem_singleton, hresolved, Option.some_inj]
    constructor
    · rintro rfl
      exact ⟨htarget, Or.inl rfl⟩
    · rintro ⟨hf, hkey | ⟨hmissing, -⟩⟩
      · exact h.eq_of_key_eq hf htarget hkey.symm
      · exact absurd hmissing hpresent
  · next hlink =>
    have hmissing := bind_file?_eq_none_iff.mp hlink
    rw [List.mem_filter, and_congr_right_iff]
    intro hf
    rw [or_iff_right (hmissing f hf), and_iff_right hmissing]

theorem nodup_broughtIn (h : index.Consistent) (r : ResourceImport) : (broughtIn index r).Nodup := by
  unfold broughtIn
  split
  · exact List.nodup_singleton _
  · exact h.keys_nodup.of_map.filter _

theorem mem_importedKeys_iff (h : index.Consistent) :
    key ∈ importedKeys index r ↔ ∃ f, BringsIn index r f ∧ f.key = key := by
  simp only [importedKeys_eq, List.mem_map, mem_broughtIn_iff h]

/-- The base library, the current file, what goes by the name of a library that it imports, and what its
resource imports bring in are searched. -/
theorem mem_defaultKeys_iff {cx : ScopeContext} (hcurrent : cx.current = some f) (key : Key) :
    key ∈ defaultKeys cx ↔ (key = Key.ofText cx.baseLibrary ∧ cx.index.contains key = true) ∨ key = f.key ∨
      (∃ l ∈ f.libraries, key ∈ keysNamed cx.index l.name) ∨
      ∃ r ∈ f.resources, key ∈ importedKeys cx.index r := by
  rw [defaultKeys, hcurrent]
  simp only [mem_distinct, List.mem_append, List.mem_singleton, List.mem_flatMap, or_assoc]
  refine or_congr_left ?_
  split
  · next hbase =>
    rw [List.mem_singleton]
    exact ⟨fun h => ⟨h, h ▸ hbase⟩, And.left⟩
  · next hbase => exact iff_of_false List.not_mem_nil fun h => hbase (h.1 ▸ h.2)

end BringsIn

/-! ## The fallback -/

/-- An import that resolves to the path of an indexed table file matches it by name if and only if its file
name is kept. So while the link of the import is missing, it brings in the file that its path denotes in
exactly these cases, and then the file is searched wherever the import stands. -/
theorem matchesName_target_iff (changes : List Index.Change) {isFile : Path → Bool} {directory target : Path}
    {r : ResourceImport} {f : SourceFile}
    (htarget : resolveImport? isFile directory r.declared = some target)
    (hf : f ∈ (Index.after changes).files) (htable : f.isLibrary = false) (hpath : f.path = some target) :
    (r.matchesName f = true ↔ KeepsName r.declared target) ∧
      (LinkMissing (Index.after changes) r →
        (f.key ∈ importedKeys (Index.after changes) r ↔ KeepsName r.declared target) ∧
        (KeepsName r.declared target → ∀ cx g, cx.index = Index.after changes → cx.current = some g →
          r ∈ g.resources → f.key ∈ defaultKeys cx)) := by
  have hindex := Index.consistent_after changes
  have hmatches : r.matchesName f = true ↔ KeepsName r.declared target := by
    have himport := importTarget_of_resolveImport? htarget
    rw [← himport, keepsName_iff, himport, ResourceImport.matchesName, Bool.and_eq_true,
      SourceFile.isNamed, Index.displayName_of_path hf htable hpath, SourceFile.extension, hpath]
    rfl
  refine ⟨hmatches, fun hmissing => ?_⟩
  have hbrought : f.key ∈ importedKeys (Index.after changes) r ↔ KeepsName r.declared target := by
    rw [mem_importedKeys_iff hindex, ← hmatches]
    constructor
    · rintro ⟨g, ⟨hg, hlinked | ⟨-, hgmatches⟩⟩, hkey⟩
      · exact absurd hlinked (hmissing g hg)
      · exact hindex.eq_of_key_eq hg hf hkey ▸ hgmatches
    · exact fun hmatch => ⟨f, ⟨hf, Or.inr ⟨hmissing, hmatch⟩⟩, rfl⟩
  refine ⟨hbrought, fun hkept cx g hcx hcurrent hr => ?_⟩
  rw [mem_defaultKeys_iff hcurrent, hcx]
  exact Or.inr (Or.inr (Or.inr ⟨r, hr, hbrought.mpr hkept⟩))

/-- A suite that imports one resource in two spellings, one of them with a backslash. -/
def respelledImports : List Index.Change :=
  [.addTable { resources := ["./res//x/../common.robot", "res\\common.robot"] } ⟨"/p/suite.robot"⟩,
    .addTable { keywords := [⟨"A", "", [], none⟩] } ⟨"/p/res/common.robot"⟩]

/-- The import without a backslash falls back on its file. -/
theorem matchesName_target_respelled :
    let index := Index.after respelledImports
    let r : ResourceImport := { declared := "./res//x/../common.robot" }
    ∃ f ∈ index.files, f.path = some ⟨"/p/res/common.robot"⟩ ∧ r.matchesName f = true ∧
      f.key ∈ importedKeys index r := by
  intro index r
  let target : Path := ⟨"/p/res/common.robot"⟩
  have hfile : ∃ f ∈ index.files, f.isLibrary = false ∧ f.path = some target := by decide +kernel
  obtain ⟨f, hf, htable, hpath⟩ := hfile
  have htarget : resolveImport? (· = target) ⟨"/p"⟩ r.declared = some target := by decide +kernel
  have hname : (Path.mk r.declared).fileName? = some "common.robot" := by decide +kernel
  have hkept : KeepsName r.declared target := Or.inl ⟨"common.robot", hname, by decide⟩
  have hmissing : LinkMissing index r := fun g _ => (Option.some_ne_none g.key).symm
  have h := matchesName_target_iff respelledImports htarget hf htable hpath
  exact ⟨f, hf, hpath, h.1.mpr hkept, (h.2 hmissing).1.mpr hkept⟩

/-- The import with a backslash resolves to the file and is not brought in by name. -/
theorem target_not_matched :
    let index := Index.after respelledImports
    let target : Path := ⟨"/p/res/common.robot"⟩
    ∃ g ∈ index.files, ∃ r ∈ g.resources, ∃ f ∈ index.files,
      resolveImport? (· = target) ⟨"/p"⟩ r.declared = some target ∧ f.isLibrary = false ∧
      f.path = some target ∧ r.resolved = none ∧ r.matchesName f = false ∧ f.key ∉ importedKeys index r := by
  decide +kernel

end Query

end KeywordIndex
