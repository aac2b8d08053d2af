import KeywordIndex.Project.Status
import KeywordIndex.Proofs.Query.NamedImports

namespace KeywordIndex

open Query

/-! # The report shows what is searched

A status report and the default scope look up the imported resources apart. Both come to the records that
each import brings in: one lists their keys (`importedKeys_eq`), the other their paths
(`resourcePaths_eq`). So as long as every record has a path, what is reported on an import is what it adds to
the default scope (`report_shows_searched`), whether it is linked, its link is missing or its name is shared.
-/

namespace ResourceState

variable {paths : List Path}

theorem ofPaths_eq_notFound_iff : ofPaths paths = .notFound ↔ paths.length = 0 := by
  rcases paths with _ | ⟨p, _ | ⟨q, rest⟩⟩ <;> simp [ofPaths]

theorem ofPaths_eq_multiple_iff : ofPaths paths = .multiple ↔ 2 ≤ paths.length := by
  rcases paths with _ | ⟨p, _ | ⟨q, rest⟩⟩ <;> simp [ofPaths]

end ResourceState

theorem two_le_length_iff {α : Type} {as : List α} (h : as.Nodup) :
    2 ≤ as.length ↔ ∃ a ∈ as, ∃ b ∈ as, a ≠ b := by
  rcases as with _ | ⟨a, _ | ⟨b, rest⟩⟩
  · simp
  · simp
  · have hne : a ≠ b := fun e => (List.nodup_cons.mp h).1 (e ▸ List.mem_cons_self)
    exact iff_of_true (by simp) ⟨a, by simp, b, by simp, hne⟩

section Report

variable {index : Index} {r : ResourceImport}

theorem resourcePaths_eq (index : Index) (r : ResourceImport) :
    resourcePaths index r = (broughtIn index r).filterMap (·.path) := by
  unfold resourcePaths broughtIn
  cases r.resolved.bind index.file? with
  | none => rfl
  | some target => cases h : target.path <;> simp [h]

/-- The report on an import shows which records the import brings in. -/
structure Shows (index : Index) (r : ResourceImport) (resource : ResourceReport) : Prop where
  name : resource.name = r.name
  paths : ∀ p, p ∈ resource.paths ↔ ∃ f, BringsIn index r f ∧ f.path = some p
  notFound : resource.state = .notFound ↔ ¬ ∃ f, BringsIn index r f
  multiple : resource.state = .multiple ↔ ∃ f g, BringsIn index r f ∧ BringsIn index r g ∧ f ≠ g

theorem shows_reportResource (h : index.Consistent)
    (hpaths : ∀ f ∈ index.files, ∃ p, f.path = some p) (r : ResourceImport) :
    Shows index r (reportResource index r) := by
  have hbrought : ∀ f, f ∈ broughtIn index r ↔ BringsIn index r f := fun f => mem_broughtIn_iff h
  -- no record is left out of the paths
  have hlength : (resourcePaths index r).length = (broughtIn index r).length := by
    rw [resourcePaths_eq, List.filterMap_length_eq_length]
    intro f hf
    obtain ⟨p, hp⟩ := hpaths f ((hbrought f).mp hf).1
    rw [hp, Option.isSome_some]
  refine ⟨rfl, fun p => ?_, ?_, ?_⟩
  · change p ∈ resourcePaths index r ↔ _
    simp only [resourcePaths_eq, List.mem_filterMap, hbrought]
  · change ResourceState.ofPaths (resourcePaths index r) = _ ↔ _
    rw [ResourceState.ofPaths_eq_notFound_iff, hlength, List.length_eq_zero_iff,
      List.eq_nil_iff_forall_not_mem, not_exists]
    simp only [hbrought]
  · change ResourceState.ofPaths (resourcePaths index r) = _ ↔ _
    rw [ResourceState.ofPaths_eq_multiple_iff, hlength, two_le_length_iff (nodup_broughtIn h r)]
    simp only [hbrought]
    constructor
    · rintro ⟨f, hf, g, hg, hne⟩
      exact ⟨f, g, hf, hg, hne⟩
    · rintro ⟨f, g, hf, hg, hne⟩
      exact ⟨f, hf, g, hg, hne⟩

end Report

/-! ## The searched records -/

/-- The report on a file shows what the resources that it imports add to the default scope. Each reported path
is that of a searched record. Each searched record that is neither the file nor the base library nor goes by
the name of an imported library has its path reported. And of each import the report tells which records it
brings in, all of them searched: nothing is reported as not found but what brings in nothing, and nothing as
multiple but what brings in several. -/
theorem report_shows_searched (changes : List Index.Change) (options : QueryOptions) (cache : LibraryCache)
    (isTable : Path → Except Error Bool) {path : Path} {f : SourceFile}
    (hdocuments : ∀ g ∈ (Index.after changes).files, g.isLibrary = true → ∃ p, g.path = some p)
    (hcurrent : (Index.after changes).fileByPath? path = some f) :
    let index := Index.after changes
    let resources := (reportStatus index cache (some path) isTable).resources
    let searched := defaultKeys (contextOf index options (some path))
    (∀ resource ∈ resources, ∀ p ∈ resource.paths,
      ∃ g ∈ index.files, g.path = some p ∧ g.key ∈ searched) ∧
    (∀ key ∈ searched, ∃ g ∈ index.files, g.key = key ∧
      (key = f.key ∨ key = Key.ofText options.baseLibrary ∨ (∃ l ∈ f.libraries, g.isNamed l.name = true) ∨
        ∃ resource ∈ resources, ∃ p ∈ resource.paths, g.path = some p)) ∧
    (∀ r ∈ f.resources, ∀ g, BringsIn index r g → g.key ∈ searched) ∧
    List.Forall₂ (Shows index) f.resources resources := by
  intro index resources searched
  have hindex : index.Consistent := Index.consistent_after changes
  have hf : f ∈ index.files := (Index.mem_of_file? hcurrent).1
  have hpaths : ∀ g ∈ index.files, ∃ p, g.path = some p := by
    intro g hg
    cases hkind : g.isLibrary with
    | true => exact hdocuments g hg hkind
    | false => exact Index.exists_path_of_table hg hkind
  have hresources : resources = f.resources.map (reportResource index) := by
    change StatusReport.resources (reportStatus index cache (some path) isTable) = _
    rw [reportStatus, hcurrent]
  have hshows : ∀ r, Shows index r (reportResource index r) := shows_reportResource hindex hpaths
  have hsearched := mem_defaultKeys_iff (show (contextOf index options (some path)).current = some f from hcurrent)
  have hadded : ∀ r ∈ f.resources, ∀ g, BringsIn index r g → g.key ∈ searched := fun r hr g hg =>
    (hsearched g.key).mpr (Or.inr (Or.inr (Or.inr ⟨r, hr, (mem_importedKeys_iff hindex).mpr ⟨g, hg, rfl⟩⟩)))
  refine ⟨?_, ?_, hadded, ?_⟩
  · intro resource hresource p hp
    rw [hresources] at hresource
    obtain ⟨r, hr, rfl⟩ := List.mem_map.mp hresource
    obtain ⟨g, hg, hpath⟩ := ((hshows r).paths p).mp hp
    exact ⟨g, hg.1, hpath, hadded r hr g hg⟩
  · intro key hkey
    rcases (hsearched key).mp hkey with ⟨hbase, hcontains⟩ | rfl | ⟨l, hl, hnamed⟩ | ⟨r, hr, himported⟩
    · obtain ⟨g, hg⟩ := Option.isSome_iff_exists.mp hcontains
      obtain ⟨hmem, hkey⟩ := Index.mem_of_file? hg
      exact ⟨g, hmem, hkey, Or.inr (Or.inl hbase)⟩
    · exact ⟨f, hf, rfl, Or.inl rfl⟩
    · obtain ⟨g, hg, hkey⟩ := List.mem_map.mp hnamed
      obtain ⟨hmem, hname⟩ := List.mem_filter.mp hg
      exact ⟨g, hmem, hkey, Or.inr (Or.inr (Or.inl ⟨l, hl, hname⟩))⟩
    · obtain ⟨g, hg, hkey⟩ := (mem_importedKeys_iff hindex).mp himported
      obtain ⟨p, hp⟩ := hpaths g hg.1
      refine ⟨g, hg.1, hkey, Or.inr (Or.inr (Or.inr ⟨reportResource index r, ?_, p, ?_, hp⟩))⟩
      · exact hresources ▸ List.mem_map_of_mem hr
      · exact ((hshows r).paths p).mpr ⟨g, hg, hp⟩
  · rw [hresources, List.forall₂_map_right_iff]
    exact List.forall₂_same.mpr fun r _ => hshows r

/-- A suite is linked to a resource that is then removed, while two others go by its name. -/
def dangling : List Index.Change :=
  [.addLibrary {} "BuiltIn" (some ⟨"/docs/builtin.xml"⟩) none,
    .addTable { resources := ["common.robot"] } ⟨"/p/suite.robot"⟩, .addTable {} ⟨"/p/common.robot"⟩,
    .resolveAll fun _ => true, .remove ⟨"/p/common.robot"⟩,
    .addTable {} ⟨"/q/common.robot"⟩, .addTable {} ⟨"/r/Common.robot"⟩]

theorem report_shows_searched_dangling :
    let index := Index.after dangling
    let path : Path := ⟨"/p/suite.robot"⟩
    let resources := (reportStatus index {} (some path) fun _ => .ok true).resources
    (∀ g ∈ index.files, g.isLibrary = true → ∃ p, g.path = some p) ∧
    (∃ f, index.fileByPath? path = some f ∧
      ∀ r ∈ f.resources, LinkMissing index r ∧ r.resolved.isSome = true) ∧
    resources.map (·.state) = [.multiple] ∧
    ∀ resource ∈ resources, ∀ p ∈ resource.paths,
      ∃ g ∈ index.files, g.path = some p ∧ g.key ∈ defaultKeys (contextOf index {} (some path)) := by
  intro index path resources
  have hdocuments : ∀ g ∈ index.files, g.isLibrary = true → ∃ p, g.path = some p := by
    simp only [← Option.isSome_iff_exists]
    decide +kernel
  have hindexed : (index.fileByPath? path).isSome = true := by decide +kernel
  obtain ⟨f, hcurrent⟩ := Option.isSome_iff_exists.mp hindexed
  have hmissing : ∀ f ∈ index.fileByPath? path, ∀ r ∈ f.resources,
      (∀ g ∈ index.files, r.resolved ≠ some g.key) ∧ r.resolved.isSome = true := by decide +kernel
  exact ⟨hdocuments, ⟨f, hcurrent, hmissing f hcurrent⟩, by decide +kernel,
    (report_shows_searched dangling {} {} (fun _ => .ok true) hdocuments hcurrent).1⟩

end KeywordIndex
