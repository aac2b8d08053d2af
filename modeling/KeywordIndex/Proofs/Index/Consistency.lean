import KeywordIndex.Proofs.Index.Links
import KeywordIndex.Proofs.Index.NameTable
import Mathlib.Data.List.Nodup
import Mathlib.Data.List.Perm.Basic

namespace KeywordIndex

/-! # The two views of an index agree

An index keeps its keywords twice: in the records, and by name in the name table. Every change patches
both. `Consistent` is the invariant: keys are unique, every keyword is numbered by its place in its
record, and each name lists exactly the keywords that have it. It holds of the empty index and every
change keeps it (`Consistent.apply`), so it holds after any changes in any order. Links of imports are
no part of it: a change of links leaves keywords and keys as they are.
-/

namespace SourceFile

/-- Every keyword carries the key of the record and its place in it. -/
def Numbered (f : SourceFile) : Prop :=
  ∀ (i : Nat) (k : Keyword), f.keywords[i]? = some k → k.id = ⟨f.key, i⟩

theorem Numbered.file_eq {f : SourceFile} (h : f.Numbered) {k : Keyword} (hk : k ∈ f.keywords) :
    k.id.file = f.key := by
  obtain ⟨i, hi⟩ := List.mem_iff_getElem?.mp hk
  rw [h i k hi]

/-- The identifiers of the keywords of a record count from zero. -/
theorem Numbered.map_id {f : SourceFile} (h : f.Numbered) :
    f.keywords.map (·.id) = (List.range f.keywords.length).map (KeywordId.mk f.key) := by
  refine List.ext_getElem (by simp) fun i hi _ => ?_
  rw [List.length_map] at hi
  simp [h i _ (List.getElem?_eq_getElem hi)]

theorem Numbered.nodup_ids {f : SourceFile} (h : f.Numbered) : (f.keywords.map (·.id)).Nodup := by
  rw [h.map_id]
  exact List.Nodup.map (fun i j e => (KeywordId.mk.inj e).2) List.nodup_range

/-- The keywords of a record stand in the order of their ordinals. -/
theorem Numbered.pairwise_ordinal {f : SourceFile} (h : f.Numbered) :
    f.keywords.Pairwise fun k l => k.id.ordinal < l.id.ordinal := by
  refine List.pairwise_iff_getElem.mpr fun i j hi hj hlt => ?_
  rw [h i _ (List.getElem?_eq_getElem hi), h j _ (List.getElem?_eq_getElem hj)]
  exact hlt

theorem id_of_keywordsFrom {file : Key} {isLocal : Bool} {ordinal : Nat} {ds : List Declaration}
    {i : Nat} {k : Keyword} (h : (keywordsFrom file isLocal ordinal ds)[i]? = some k) :
    k.id = ⟨file, ordinal + i⟩ := by
  induction ds generalizing ordinal i with
  | nil => simp [keywordsFrom] at h
  | cons d rest ih =>
    cases i with
    | zero =>
      simp only [keywordsFrom, List.getElem?_cons_zero, Option.some.injEq] at h
      rw [← h, Nat.add_zero]
    | succ i =>
      rw [keywordsFrom, List.getElem?_cons_succ] at h
      rw [ih h, Nat.add_right_comm, Nat.add_assoc]

theorem numbered_ofOutline (key : Key) (displayName : String) (path : Option Path)
    (outline : Outline) : (ofOutline key displayName path outline).Numbered := by
  intro i k h
  have hid := id_of_keywordsFrom h
  rw [Nat.zero_add] at hid
  exact hid

theorem numbered_ofTable (outline : Outline) (path : Path) : (ofTable outline path).Numbered :=
  numbered_ofOutline _ _ _ _

theorem numbered_ofLibrary (outline : Outline) (name : String) (document source : Option Path) :
    (ofLibrary outline name document source).Numbered :=
  numbered_ofOutline (Key.ofText name) name (document.map Path.normalize) outline

end SourceFile

namespace Index

/-! ## Records by key -/

theorem file?_of_mem {index : Index} (h : (index.files.map (·.key)).Nodup) {f : SourceFile}
    (hf : f ∈ index.files) : index.file? f.key = some f := by
  obtain ⟨files, names⟩ := index
  change f ∈ files at hf
  change files.find? (·.key = f.key) = some f
  change (files.map (·.key)).Nodup at h
  induction files with
  | nil => cases hf
  | cons g rest ih =>
    simp only [List.map_cons, List.nodup_cons] at h
    rcases List.mem_cons.mp hf with rfl | hf
    · simp
    · have hne : g.key ≠ f.key := fun e => h.1 (e ▸ List.mem_map_of_mem hf)
      rw [List.find?_cons_of_neg (by simpa using hne)]
      exact ih hf h.2

theorem map_key_putIn (f : SourceFile) (files : List SourceFile) :
    (putIn f files).map (·.key) =
      files.map (·.key) ++ if f.key ∈ files.map (·.key) then [] else [f.key] := by
  induction files with
  | nil => simp [putIn]
  | cons g rest ih =>
    rw [putIn]
    split
    · next h => simp [h]
    · next h => simp only [List.map_cons, ih, List.mem_cons, Ne.symm h, false_or, List.cons_append]

theorem nodup_map_key_putIn {files : List SourceFile} (h : (files.map (·.key)).Nodup)
    (f : SourceFile) : ((putIn f files).map (·.key)).Nodup := by
  rw [map_key_putIn]
  split
  · simpa using h
  · next hnot =>
    refine List.nodup_append.mpr ⟨h, by simp, ?_⟩
    rintro key hkey other hother rfl
    rw [List.mem_singleton] at hother
    exact hnot (hother ▸ hkey)

/-- A record that is put in takes the place of all records with its key. -/
theorem perm_putIn {files : List SourceFile} (h : (files.map (·.key)).Nodup) (f : SourceFile) :
    (putIn f files).Perm (files.filter (·.key ≠ f.key) ++ [f]) := by
  induction files with
  | nil => simp [putIn]
  | cons g rest ih =>
    simp only [List.map_cons, List.nodup_cons] at h
    rw [putIn]
    split
    · next heq =>
      -- no later record has the key: the filter takes away `g` alone
      have hrest : ∀ other ∈ rest, other.key ≠ f.key :=
        fun other hother e => h.1 (List.mem_map.mpr ⟨other, hother, e.trans heq.symm⟩)
      have hfilter : (g :: rest).filter (·.key ≠ f.key) = rest := by
        rw [List.filter_cons_of_neg (by simpa using heq)]
        exact List.filter_eq_self.mpr fun other hother => by simpa using hrest other hother
      rw [hfilter]
      exact (List.perm_append_singleton f rest).symm
    · next hne =>
      rw [List.filter_cons_of_pos (by simpa using hne), List.cons_append]
      exact (ih h.2).cons g

theorem mem_putIn {f g : SourceFile} {files : List SourceFile} (h : g ∈ putIn f files) :
    g = f ∨ g ∈ files := by
  induction files with
  | nil => simpa [putIn] using h
  | cons other rest ih =>
    rw [putIn] at h
    split at h
    · rcases List.mem_cons.mp h with rfl | h
      · exact Or.inl rfl
      · exact Or.inr (List.mem_cons_of_mem _ h)
    · rcases List.mem_cons.mp h with rfl | h
      · exact Or.inr (List.mem_cons_self)
      · exact (ih h).imp id (List.mem_cons_of_mem _)

/-! ## The invariant -/

/-- The keywords of all records. -/
def keywords (index : Index) : List Keyword := index.files.flatMap (·.keywords)

/-- The identifiers of the keywords with a name, record by record. -/
def idsNamed (files : List SourceFile) (name : String) : List KeywordId :=
  ((files.flatMap (·.keywords)).filter (·.lookupName = name)).map (·.id)

theorem idsNamed_append (files others : List SourceFile) (name : String) :
    idsNamed (files ++ others) name = idsNamed files name ++ idsNamed others name := by
  simp [idsNamed]

theorem idsNamed_perm {files others : List SourceFile} (h : files.Perm others) (name : String) :
    (idsNamed files name).Perm (idsNamed others name) :=
  ((h.flatMap_right _).filter _).map _

/-- What every index satisfies that was built by changes. -/
structure Consistent (index : Index) : Prop where
  keys_nodup : (index.files.map (·.key)).Nodup
  numbered : ∀ f ∈ index.files, f.Numbered
  wellFormed : index.names.WellFormed
  listed : ∀ name, (index.names.ids name).Perm (idsNamed index.files name)

/-- Two records with one key are one. -/
theorem Consistent.eq_of_key_eq {index : Index} (h : index.Consistent) {f g : SourceFile}
    (hf : f ∈ index.files) (hg : g ∈ index.files) (hkey : f.key = g.key) : f = g := by
  have hfile := file?_of_mem h.keys_nodup hf
  rw [hkey, file?_of_mem h.keys_nodup hg] at hfile
  exact (Option.some.inj hfile).symm

theorem Consistent.file?_eq_some_iff {index : Index} (h : index.Consistent) {key : Key}
    {f : SourceFile} : index.file? key = some f ↔ f ∈ index.files ∧ f.key = key := by
  refine ⟨mem_of_file?, ?_⟩
  rintro ⟨hf, rfl⟩
  exact file?_of_mem h.keys_nodup hf

theorem consistent_empty : Consistent {} where
  keys_nodup := by simp
  numbered := by simp
  wellFormed := NameTable.wellFormed_empty
  listed := fun _ => List.Perm.refl _

/-- A listed identifier is that of a keyword of a record. -/
theorem Consistent.exists_of_mem_ids {index : Index} (h : index.Consistent) {name : String}
    {id : KeywordId} (hid : id ∈ index.names.ids name) :
    ∃ f ∈ index.files, ∃ k ∈ f.keywords, k.id = id ∧ k.lookupName = name ∧ f.key = id.file := by
  have hmem := (h.listed name).mem_iff.mp hid
  simp only [idsNamed, List.mem_map, List.mem_filter, List.mem_flatMap, decide_eq_true_eq] at hmem
  obtain ⟨k, ⟨⟨f, hf, hk⟩, hname⟩, rfl⟩ := hmem
  exact ⟨f, hf, k, hk, rfl, hname, ((h.numbered f hf).file_eq hk).symm⟩

/-! ## Striking a record -/

/-- Taking away the identifiers of a record is taking away the record. -/
theorem filter_idsNamed {files : List SourceFile} (h : ∀ f ∈ files, f.Numbered) (key : Key)
    (name : String) :
    (idsNamed files name).filter (·.file ≠ key) =
      idsNamed (files.filter (·.key ≠ key)) name := by
  induction files with
  | nil => rfl
  | cons f rest ih =>
    have hf : ∀ k ∈ f.keywords, k.id.file = f.key := fun k hk => (h f (by simp)).file_eq hk
    have hrest := ih fun g hg => h g (by simp [hg])
    rw [← List.singleton_append, idsNamed_append, List.filter_append, hrest, List.filter_append,
      idsNamed_append]
    congr 1
    -- the identifiers of one record all stay or all go
    by_cases hkey : f.key = key
    · rw [List.filter_cons_of_neg (by simpa using hkey)]
      refine List.filter_eq_nil_iff.mpr fun id hid => ?_
      simp only [idsNamed, List.mem_map, List.mem_filter, List.mem_flatMap, List.mem_singleton] at hid
      obtain ⟨k, ⟨⟨g, rfl, hk⟩, -⟩, rfl⟩ := hid
      simp [hf k hk, hkey]
    · rw [List.filter_cons_of_pos (by simpa using hkey)]
      refine List.filter_eq_self.mpr fun id hid => ?_
      simp only [idsNamed, List.mem_map, List.mem_filter, List.mem_flatMap, List.mem_singleton] at hid
      obtain ⟨k, ⟨⟨g, rfl, hk⟩, -⟩, rfl⟩ := hid
      simp [hf k hk, hkey]

theorem Consistent.wellFormed_unlinkKey {index : Index} (h : index.Consistent) (key : Key) :
    (index.unlinkKey key).WellFormed := by
  unfold unlinkKey
  split
  · exact h.wellFormed.unlink _
  · exact h.wellFormed

/-- Unlinking strikes every identifier of the record: those names that none of its keywords has list none
of its identifiers. -/
theorem Consistent.ids_unlinkKey {index : Index} (h : index.Consistent) (key : Key) (name : String) :
    (index.unlinkKey key).ids name = (index.names.ids name).filter (·.file ≠ key) := by
  unfold unlinkKey
  cases hfile : index.file? key with
  | none =>
    -- there is no such record, so no listed identifier points into it
    symm
    refine List.filter_eq_self.mpr fun id hid => ?_
    obtain ⟨f, hf, -, -, -, -, hkey⟩ := h.exists_of_mem_ids hid
    have hne : f.key ≠ key := by simpa using List.find?_eq_none.mp hfile f hf
    simpa [← hkey] using hne
  | some f =>
    obtain ⟨hf, rfl⟩ := mem_of_file? hfile
    rw [h.wellFormed.ids_unlink]
    split
    · rfl
    · next hno =>
      -- the record has no keyword of that name, so those listed are of others
      symm
      refine List.filter_eq_self.mpr fun id hid => ?_
      obtain ⟨g, hg, k, hk, -, hname, hkey⟩ := h.exists_of_mem_ids hid
      have hne : g.key ≠ f.key := fun e => hno ⟨k, h.eq_of_key_eq hg hf e ▸ hk, hname⟩
      simpa [← hkey] using hne

theorem Consistent.listed_unlinkKey {index : Index} (h : index.Consistent) (key : Key)
    (name : String) :
    ((index.unlinkKey key).ids name).Perm (idsNamed (index.files.filter (·.key ≠ key)) name) := by
  rw [h.ids_unlinkKey, ← filter_idsNamed h.numbered]
  exact (h.listed name).filter _

/-! ## Each change keeps the invariant -/

theorem Consistent.add {index : Index} (h : index.Consistent) {f : SourceFile} (hf : f.Numbered) :
    (index.add f).Consistent where
  keys_nodup := nodup_map_key_putIn h.keys_nodup f
  numbered := by
    intro g hg
    rcases mem_putIn hg with rfl | hg
    · exact hf
    · exact h.numbered g hg
  wellFormed := (h.wellFormed_unlinkKey f.key).link f
  listed := by
    intro name
    have hids : (index.add f).names.ids name =
        (index.unlinkKey f.key).ids name ++ idsNamed [f] name := by
      rw [Index.add, NameTable.ids_link]
      simp [idsNamed]
    -- the old record was struck and the new one is listed last, wherever it stands
    have hperm := idsNamed_perm (perm_putIn h.keys_nodup f) name
    rw [idsNamed_append] at hperm
    rw [hids]
    exact ((h.listed_unlinkKey f.key name).append_right _).trans hperm.symm

theorem Consistent.remove {index : Index} (h : index.Consistent) (key : Key) :
    (index.remove key).Consistent where
  keys_nodup := (List.filter_sublist.map _).nodup h.keys_nodup
  numbered := fun f hf => h.numbered f (List.mem_of_mem_filter hf)
  wellFormed := h.wellFormed_unlinkKey key
  listed := h.listed_unlinkKey key

/-- The name table is rebuilt from the records alone. -/
theorem consistent_rebuild {index : Index} (hkeys : (index.files.map (·.key)).Nodup)
    (hnumbered : ∀ f ∈ index.files, f.Numbered) : index.rebuild.Consistent where
  keys_nodup := hkeys
  numbered := hnumbered
  wellFormed := NameTable.wellFormed_ofFiles index.files
  listed := fun name => List.Perm.of_eq (NameTable.ids_ofFiles index.files name)

theorem Consistent.reset {index : Index} (h : index.Consistent) (directory? : Option Path) :
    (index.reset directory?).Consistent := by
  cases directory? with
  | none => exact consistent_empty
  | some directory =>
    apply consistent_rebuild
    · exact (List.filter_sublist.map _).nodup h.keys_nodup
    · exact fun f hf => h.numbered f (List.mem_of_mem_filter hf)

/-- A change of links leaves the key and the keywords of every record as they are. -/
theorem files_relink (index : Index) (key : Key) (links : List (Option Key)) :
    ∃ change : SourceFile → SourceFile, (index.relink key links).files = index.files.map change ∧
      ∀ f, (change f).key = f.key ∧ (change f).keywords = f.keywords := by
  refine ⟨_, rfl, fun f => ?_⟩
  by_cases h : f.key = key <;> simp [h]

theorem Consistent.relink {index : Index} (h : index.Consistent) (key : Key)
    (links : List (Option Key)) : (index.relink key links).Consistent := by
  obtain ⟨change, hfiles, hchange⟩ := files_relink index key links
  have hids : ∀ name, idsNamed (index.relink key links).files name = idsNamed index.files name := by
    intro name
    simp only [idsNamed, hfiles, List.flatMap_map, (hchange _).2]
  refine ⟨?_, ?_, h.wellFormed, fun name => hids name ▸ h.listed name⟩
  · have hkeys : (index.relink key links).files.map (·.key) = index.files.map (·.key) := by
      simp only [hfiles, List.map_map, Function.comp_def, (hchange _).1]
    exact hkeys ▸ h.keys_nodup
  · intro g hg
    rw [hfiles] at hg
    obtain ⟨f, hf, rfl⟩ := List.mem_map.mp hg
    unfold SourceFile.Numbered
    rw [(hchange f).1, (hchange f).2]
    exact h.numbered f hf

theorem Consistent.resolve {index : Index} (h : index.Consistent) (isFile : Path → Bool) (key : Key) :
    (index.resolve isFile key).index.Consistent := by
  unfold Index.resolve
  split
  · exact h
  · split
    · exact h
    · exact h.relink _ _

theorem Consistent.resolveAll {index : Index} (h : index.Consistent) (isFile : Path → Bool) :
    (index.resolveAll isFile).index.Consistent := by
  unfold Index.resolveAll
  exact List.foldlRecOn (motive := fun found : Resolution => found.index.Consistent) _ _ h
    fun _ hfound key _ => hfound.resolve isFile key

theorem Consistent.install {index : Index} (h : index.Consistent) (loaded : List LoadedLibrary) :
    (index.install loaded).Consistent := by
  have hremoved : index.removeLibraries.Consistent :=
    List.foldlRecOn (motive := Consistent) _ Index.remove h fun _ h key _ => h.remove key
  exact List.foldlRecOn (motive := Consistent) loaded addLoaded hremoved
    fun _ h _ _ => h.add (SourceFile.numbered_ofLibrary _ _ _ _)

/-! ## Runs -/

/-- A change of an index, with its arguments. -/
inductive Change where
  /-- A table file is added under its path. -/
  | addTable (outline : Outline) (path : Path)
  /-- The documentation of a library is added under its name. -/
  | addLibrary (outline : Outline) (name : String) (document source : Option Path)
  | remove (key : Key)
  /-- The records in a directory are removed, or all records. -/
  | reset (directory? : Option Path)
  | rebuild
  | resolve (isFile : Path → Bool) (key : Key)
  | resolveAll (isFile : Path → Bool)
  | install (loaded : List LoadedLibrary)

/-- Makes a change. -/
def apply (index : Index) : Change → Index
  | .addTable outline path => index.add (.ofTable outline path)
  | .addLibrary outline name document source => index.add (.ofLibrary outline name document source)
  | .remove key => index.remove key
  | .reset directory? => index.reset directory?
  | .rebuild => index.rebuild
  | .resolve isFile key => (index.resolve isFile key).index
  | .resolveAll isFile => (index.resolveAll isFile).index
  | .install loaded => index.install loaded

/-- The index that some changes build from the empty one. -/
def after (changes : List Change) : Index := changes.foldl apply {}

theorem Consistent.apply {index : Index} (h : index.Consistent) (change : Change) :
    (index.apply change).Consistent := by
  cases change with
  | addTable outline path => exact h.add (SourceFile.numbered_ofTable outline path)
  | addLibrary outline name document source =>
    exact h.add (SourceFile.numbered_ofLibrary outline name document source)
  | remove key => exact h.remove key
  | reset directory? => exact h.reset directory?
  | rebuild => exact consistent_rebuild h.keys_nodup h.numbered
  | resolve isFile key => exact h.resolve isFile key
  | resolveAll isFile => exact h.resolveAll isFile
  | install loaded => exact h.install loaded

theorem consistent_after (changes : List Change) : (after changes).Consistent :=
  List.foldlRecOn (motive := Consistent) changes Index.apply consistent_empty
    fun _ h change _ => h.apply change

/-! ## What readers of an index see -/

/-- A keyword is found by its identifier. -/
theorem Consistent.keyword?_id {index : Index} (h : index.Consistent) {k : Keyword}
    (hk : k ∈ index.keywords) : index.keyword? k.id = some k := by
  obtain ⟨f, hf, hk⟩ := List.mem_flatMap.mp hk
  obtain ⟨i, hi⟩ := List.mem_iff_getElem?.mp hk
  rw [h.numbered f hf i k hi]
  simp only [keyword?, file?_of_mem h.keys_nodup hf, Option.bind_some, hi]

/-- What is found by an identifier is the keyword that carries it. -/
theorem Consistent.keyword?_eq_some {index : Index} (h : index.Consistent) {id : KeywordId}
    {k : Keyword} (hk : index.keyword? id = some k) : k ∈ index.keywords ∧ k.id = id := by
  obtain ⟨f, hfile, hk⟩ := Option.bind_eq_some_iff.mp hk
  obtain ⟨hf, hkey⟩ := mem_of_file? hfile
  refine ⟨List.mem_flatMap.mpr ⟨f, hf, List.mem_of_getElem? hk⟩, ?_⟩
  rw [h.numbered f hf _ _ hk, hkey]

/-- An identifier names one keyword of one record. -/
theorem Consistent.eq_of_id_eq {index : Index} (h : index.Consistent) {f g : SourceFile}
    (hf : f ∈ index.files) (hg : g ∈ index.files) {k l : Keyword} (hk : k ∈ f.keywords)
    (hl : l ∈ g.keywords) (hid : k.id = l.id) : f = g ∧ k = l := by
  have hkey : f.key = g.key := by
    rw [← (h.numbered f hf).file_eq hk, ← (h.numbered g hg).file_eq hl, hid]
  have hfound := h.keyword?_id (List.mem_flatMap.mpr ⟨f, hf, hk⟩)
  rw [hid, h.keyword?_id (List.mem_flatMap.mpr ⟨g, hg, hl⟩)] at hfound
  exact ⟨h.eq_of_key_eq hf hg hkey, (Option.some.inj hfound).symm⟩

theorem Consistent.filterMap_keyword? {index : Index} (h : index.Consistent) (ks : List Keyword)
    (hks : ∀ k ∈ ks, k ∈ index.keywords) : (ks.map (·.id)).filterMap index.keyword? = ks := by
  induction ks with
  | nil => rfl
  | cons k rest ih =>
    rw [List.map_cons, List.filterMap_cons_some (h.keyword?_id (hks k (by simp))),
      ih fun other hother => hks other (by simp [hother])]

/-- A look-up by name finds exactly the keywords with that name. -/
theorem Consistent.keywordsNamed_perm {index : Index} (h : index.Consistent) (name : String) :
    (index.keywordsNamed name).Perm
      (index.keywords.filter (·.lookupName = KeywordIndex.lookupName name)) := by
  have hperm := (h.listed (KeywordIndex.lookupName name)).filterMap index.keyword?
  have hfound := h.filterMap_keyword?
    (index.keywords.filter (·.lookupName = KeywordIndex.lookupName name))
    fun k hk => List.mem_of_mem_filter hk
  exact hfound ▸ hperm

/-- No identifier is that of two keywords. -/
theorem Consistent.nodup_ids {index : Index} (h : index.Consistent) :
    (index.keywords.map (·.id)).Nodup := by
  rw [keywords, List.map_flatMap, List.nodup_flatMap]
  constructor
  · exact fun f hf => (h.numbered f hf).nodup_ids
  · have hkeys := List.pairwise_map.mp h.keys_nodup
    -- identifiers of two records differ in the key
    refine hkeys.imp_of_mem fun {f g} hf hg hne => ?_
    rw [Function.onFun_apply, List.disjoint_left]
    intro id hid hid'
    obtain ⟨k, hk, rfl⟩ := List.mem_map.mp hid
    obtain ⟨l, hl, hsame⟩ := List.mem_map.mp hid'
    have hfile := congrArg KeywordId.file hsame
    rw [(h.numbered f hf).file_eq hk, (h.numbered g hg).file_eq hl] at hfile
    exact hne hfile.symm

/-- An identifier is listed under the name of its keyword and no other. -/
theorem Consistent.mem_ids_iff {index : Index} (h : index.Consistent) {name : String}
    {id : KeywordId} :
    id ∈ index.names.ids name ↔ ∃ k, index.keyword? id = some k ∧ k.lookupName = name := by
  constructor
  · intro hid
    obtain ⟨f, hf, k, hk, rfl, hname, -⟩ := h.exists_of_mem_ids hid
    exact ⟨k, h.keyword?_id (List.mem_flatMap.mpr ⟨f, hf, hk⟩), hname⟩
  · rintro ⟨k, hk, rfl⟩
    obtain ⟨hmem, rfl⟩ := h.keyword?_eq_some hk
    exact (h.listed k.lookupName).mem_iff.mpr
      (List.mem_map_of_mem (List.mem_filter.mpr ⟨hmem, by simp⟩))

/-- The identifiers in the name table are those of the keywords, each once. -/
theorem Consistent.table_perm {index : Index} (h : index.Consistent) :
    (index.names.buckets.flatMap (·.2)).Perm (index.keywords.map (·.id)) := by
  rw [h.wellFormed.flatMap_buckets]
  have hnodup : (index.names.names.flatMap index.names.ids).Nodup := by
    rw [List.nodup_flatMap]
    constructor
    · intro name _
      exact (h.listed name).nodup_iff.mpr ((List.filter_sublist.map _).nodup h.nodup_ids)
    · -- a keyword has one name, so its identifier is in one bucket
      refine h.wellFormed.names_nodup.imp fun {name other} hne => ?_
      rw [Function.onFun_apply, List.disjoint_left]
      intro id hid hid'
      obtain ⟨k, hk, rfl⟩ := h.mem_ids_iff.mp hid
      obtain ⟨l, hl, rfl⟩ := h.mem_ids_iff.mp hid'
      rw [hk] at hl
      exact hne (congrArg Keyword.lookupName (Option.some.inj hl))
  refine (List.perm_ext_iff_of_nodup hnodup h.nodup_ids).mpr fun id => ?_
  constructor
  · intro hid
    obtain ⟨name, -, hid⟩ := List.mem_flatMap.mp hid
    obtain ⟨k, hk, -⟩ := h.mem_ids_iff.mp hid
    obtain ⟨hmem, rfl⟩ := h.keyword?_eq_some hk
    exact List.mem_map_of_mem hmem
  · intro hid
    obtain ⟨k, hk, rfl⟩ := List.mem_map.mp hid
    have hlisted := h.mem_ids_iff.mpr ⟨k, h.keyword?_id hk, rfl⟩
    exact List.mem_flatMap.mpr
      ⟨k.lookupName, h.wellFormed.mem_names_iff.mpr (List.ne_nil_of_mem hlisted), hlisted⟩

/-- The identifiers in the name table that point into a record are those of its keywords, each once. -/
theorem Consistent.ids_of_record {index : Index} (h : index.Consistent) {f : SourceFile}
    (hf : f ∈ index.files) :
    ((index.names.buckets.flatMap (·.2)).filter (·.file = f.key)).Perm (f.keywords.map (·.id)) := by
  have hnodup := h.table_perm.nodup_iff.mpr h.nodup_ids
  refine (List.perm_ext_iff_of_nodup (hnodup.filter _) (h.numbered f hf).nodup_ids).mpr fun id => ?_
  rw [List.mem_filter, decide_eq_true_eq, h.table_perm.mem_iff]
  constructor
  · rintro ⟨hid, hfile⟩
    obtain ⟨k, hk, rfl⟩ := List.mem_map.mp hid
    have hsome := h.keyword?_id hk
    rw [keyword?, hfile, file?_of_mem h.keys_nodup hf, Option.bind_some] at hsome
    exact List.mem_map_of_mem (List.mem_of_getElem? hsome)
  · intro hid
    obtain ⟨k, hk, rfl⟩ := List.mem_map.mp hid
    exact ⟨List.mem_map_of_mem (List.mem_flatMap.mpr ⟨f, hf, hk⟩), (h.numbered f hf).file_eq hk⟩

/-- A rebuilt index has the same records and lists the same identifiers under the same names. -/
theorem Consistent.rebuild_perm {index : Index} (h : index.Consistent) :
    index.rebuild.names.names.Perm index.names.names ∧
      ∀ name, (index.rebuild.names.ids name).Perm (index.names.ids name) := by
  have hrebuilt := consistent_rebuild h.keys_nodup h.numbered
  have hids : ∀ name, (index.rebuild.names.ids name).Perm (index.names.ids name) :=
    fun name => (hrebuilt.listed name).trans (h.listed name).symm
  refine ⟨?_, hids⟩
  -- a name is in a table if it lists something, and the two list the same
  refine (List.perm_ext_iff_of_nodup hrebuilt.wellFormed.names_nodup h.wellFormed.names_nodup).mpr
    fun name => ?_
  rw [hrebuilt.wellFormed.mem_names_iff, h.wellFormed.mem_names_iff, Ne, Ne,
    List.eq_nil_iff_length_eq_zero, List.eq_nil_iff_length_eq_zero, (hids name).length_eq]

/-- After any changes in any order, the name table holds the identifier of each indexed keyword once, in
the bucket of its lookup name, and no bucket is empty; an identifier names the record and the place of its
keyword. So a look-up by name finds exactly the keywords with that name, a record that is added leaves
under its key its own keywords alone, whatever was there before, and a rebuild changes at most the order
inside the buckets and of the buckets. -/
theorem views_agree (changes : List Change) :
    let index := after changes
    ((index.names.buckets.flatMap (·.2)).Perm (index.keywords.map (·.id)) ∧
      (index.keywords.map (·.id)).Nodup) ∧
    (index.names.names.Nodup ∧
      ∀ bucket ∈ index.names.buckets, bucket.2 ≠ [] ∧
        ∀ id ∈ bucket.2, ∃ k, index.keyword? id = some k ∧ k.lookupName = bucket.1) ∧
    (∀ f ∈ index.files, index.file? f.key = some f ∧
      ∀ (i : Nat) (k : Keyword), f.keywords[i]? = some k → k.id = ⟨f.key, i⟩) ∧
    (∀ name, (index.keywordsNamed name).Perm
      (index.keywords.filter (·.lookupName = KeywordIndex.lookupName name))) ∧
    (∀ f : SourceFile, f.Numbered →
      (index.add f).file? f.key = some f ∧
      (((index.add f).names.buckets.flatMap (·.2)).filter (·.file = f.key)).Perm
        (f.keywords.map (·.id))) ∧
    index.rebuild.files = index.files ∧ index.rebuild.names.names.Perm index.names.names ∧
      ∀ name, (index.rebuild.names.ids name).Perm (index.names.ids name) := by
  intro index
  have h : index.Consistent := consistent_after changes
  refine ⟨⟨h.table_perm, h.nodup_ids⟩, ⟨h.wellFormed.names_nodup, ?_⟩, ?_, h.keywordsNamed_perm, ?_,
    rfl, h.rebuild_perm⟩
  · intro bucket hbucket
    have hids : index.names.ids bucket.1 = bucket.2 := h.wellFormed.ids_of_mem hbucket
    refine ⟨h.wellFormed.nonempty bucket hbucket, fun id hid => h.mem_ids_iff.mp ?_⟩
    rwa [hids]
  · exact fun f hf => ⟨file?_of_mem h.keys_nodup hf, h.numbered f hf⟩
  · intro f hf
    have hfile : (index.add f).file? f.key = some f := by rw [file?_add, if_pos rfl]
    exact ⟨hfile, (h.add hf).ids_of_record (mem_of_file? hfile).1⟩

/-- A file that names one keyword twice, another with the same name, the first once more with another
spelling of its path and other names, and a rebuild. -/
def overlapping : List Change :=
  let keyword (name : String) : Declaration := ⟨name, "", [], none⟩
  [.addTable { keywords := [keyword "Foo", keyword "foo", keyword "Bar"] } ⟨"/P/a.robot"⟩,
    .addTable { keywords := [keyword "FOO"] } ⟨"/q/b.robot"⟩,
    .addTable { keywords := [keyword "Baz", keyword "foo"] } ⟨"/p/./A.robot"⟩,
    .rebuild]

theorem views_agree_overlapping :
    (("foo", [⟨⟨"/p/a.robot"⟩, 1⟩, ⟨⟨"/q/b.robot"⟩, 0⟩]) ∈ (after overlapping).names.buckets ∧
      ∃ k, (after overlapping).keyword? ⟨⟨"/p/a.robot"⟩, 1⟩ = some k ∧ k.lookupName = "foo") ∧
    (∃ f ∈ (after overlapping).files,
      (after overlapping).file? f.key = some f ∧ f.keywords.length = 2) ∧
    ((after overlapping).add (.ofTable {} ⟨"/q/b.robot"⟩)).file? ⟨"/q/b.robot"⟩ =
      some (.ofTable {} ⟨"/q/b.robot"⟩) := by
  have h := views_agree overlapping
  have hbucket : ("foo", [⟨⟨"/p/a.robot"⟩, 1⟩, ⟨⟨"/q/b.robot"⟩, 0⟩]) ∈
      (after overlapping).names.buckets := by decide +kernel
  have hid : (⟨⟨"/p/a.robot"⟩, 1⟩ : KeywordId) ∈
      [(⟨⟨"/p/a.robot"⟩, 1⟩ : KeywordId), ⟨⟨"/q/b.robot"⟩, 0⟩] := by simp
  have hrecord : ∃ f ∈ (after overlapping).files, f.keywords.length = 2 := by decide +kernel
  have hkey : (SourceFile.ofTable {} ⟨"/q/b.robot"⟩).key = ⟨"/q/b.robot"⟩ := by decide +kernel
  obtain ⟨f, hf, hlength⟩ := hrecord
  refine ⟨⟨hbucket, (h.2.1.2 _ hbucket).2 _ hid⟩, ⟨f, hf, (h.2.2.1 f hf).1, hlength⟩, ?_⟩
  have hadd := (h.2.2.2.2.1 (.ofTable {} ⟨"/q/b.robot"⟩) (SourceFile.numbered_ofTable _ _)).1
  rwa [hkey] at hadd

end Index

end KeywordIndex
