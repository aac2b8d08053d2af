import KeywordIndex.Index.NameTable
import Mathlib.Data.List.Basic

namespace KeywordIndex.NameTable

/-! # Laws of the name table

Each operation is described by what it does to the identifiers under one name. Adding is a law of every
table. Striking needs a well-formed one, in which no name has two buckets: otherwise the bucket that goes
with its last identifier would uncover another one.
-/

/-- No name has two buckets, and no bucket is empty. -/
structure WellFormed (t : NameTable) : Prop where
  names_nodup : t.names.Nodup
  nonempty : ∀ bucket ∈ t.buckets, bucket.2 ≠ []

theorem wellFormed_empty : WellFormed {} := ⟨by simp [names], by simp⟩

/-! ## Looking up -/

theorem lookup_cons_eq_ite (found name : String) (ids : List KeywordId)
    (rest : List (String × List KeywordId)) :
    ((found, ids) :: rest).lookup name = if found = name then some ids else rest.lookup name := by
  rw [List.lookup_cons]
  by_cases h : found = name
  · simp [h]
  · have hbeq : (name == found) = false := by simpa using Ne.symm h
    simp [h, hbeq]

/-- A table lists the identifiers of a bucket under its name. -/
theorem WellFormed.ids_of_mem {t : NameTable} (h : t.WellFormed) {name : String}
    {ids : List KeywordId} (hmem : (name, ids) ∈ t.buckets) : t.ids name = ids := by
  obtain ⟨buckets⟩ := t
  have hnodup : (buckets.map (·.1)).Nodup := h.names_nodup
  change (name, ids) ∈ buckets at hmem
  change (buckets.lookup name).getD [] = ids
  clear h
  induction buckets with
  | nil => cases hmem
  | cons bucket rest ih =>
    obtain ⟨found, listed⟩ := bucket
    simp only [List.map_cons, List.nodup_cons] at hnodup
    rw [lookup_cons_eq_ite]
    rcases List.mem_cons.mp hmem with heq | hrest
    · obtain ⟨rfl, rfl⟩ := Prod.mk.inj heq
      simp
    · have hne : found ≠ name := by
        rintro rfl
        exact hnodup.1 (List.mem_map_of_mem (f := Prod.fst) hrest)
      rw [if_neg hne]
      exact ih hnodup.2 hrest

/-- A name that is in no bucket has no identifiers. -/
theorem lookup_eq_none {name : String} {buckets : List (String × List KeywordId)}
    (h : name ∉ buckets.map (·.1)) : buckets.lookup name = none := by
  induction buckets with
  | nil => rfl
  | cons bucket rest ih =>
    obtain ⟨found, ids⟩ := bucket
    simp only [List.map_cons, List.mem_cons, not_or] at h
    rw [lookup_cons_eq_ite, if_neg (Ne.symm h.1)]
    exact ih h.2

/-- In a well-formed table the names are those that have identifiers. -/
theorem WellFormed.mem_names_iff {t : NameTable} (h : t.WellFormed) {name : String} :
    name ∈ t.names ↔ t.ids name ≠ [] := by
  constructor
  · intro hmem
    obtain ⟨⟨other, ids⟩, hbucket, rfl⟩ := List.mem_map.mp hmem
    rw [h.ids_of_mem hbucket]
    exact h.nonempty _ hbucket
  · intro hne
    by_contra hnot
    exact hne (by simp [ids, lookup_eq_none hnot])

/-- The identifiers of a table, name by name. -/
theorem WellFormed.flatMap_buckets {t : NameTable} (h : t.WellFormed) :
    t.buckets.flatMap (·.2) = t.names.flatMap t.ids := by
  rw [NameTable.names, List.flatMap_map]
  exact List.flatMap_congr fun bucket hbucket => (h.ids_of_mem hbucket).symm

/-! ## Adding -/

theorem lookup_addTo (name other : String) (id : KeywordId)
    (buckets : List (String × List KeywordId)) :
    ((addTo name id buckets).lookup other).getD [] =
      (buckets.lookup other).getD [] ++ if name = other then [id] else [] := by
  induction buckets with
  | nil =>
    rw [addTo, lookup_cons_eq_ite]
    split <;> simp
  | cons bucket rest ih =>
    obtain ⟨found, ids⟩ := bucket
    rw [addTo]
    split
    · next heq =>
      subst heq
      simp only [lookup_cons_eq_ite]
      split <;> simp
    · next hne =>
      simp only [lookup_cons_eq_ite]
      split
      · next h =>
        -- the first bucket is looked up, and the identifier goes to a later one
        have hno : name ≠ other := fun e => hne (h.trans e.symm)
        simp [hno]
      · exact ih

/-- Adding a keyword lists it last under its name. -/
theorem ids_add (t : NameTable) (k : Keyword) (name : String) :
    (t.add k).ids name = t.ids name ++ if k.lookupName = name then [k.id] else [] :=
  lookup_addTo k.lookupName name k.id t.buckets

theorem map_fst_addTo (name : String) (id : KeywordId) (buckets : List (String × List KeywordId)) :
    (addTo name id buckets).map (·.1) =
      buckets.map (·.1) ++ if name ∈ buckets.map (·.1) then [] else [name] := by
  induction buckets with
  | nil => simp [addTo]
  | cons bucket rest ih =>
    obtain ⟨found, ids⟩ := bucket
    rw [addTo]
    split
    · next heq => simp [heq]
    · next hne => simp only [List.map_cons, ih, List.mem_cons, Ne.symm hne, false_or, List.cons_append]

theorem nonempty_addTo {name : String} {id : KeywordId} {buckets : List (String × List KeywordId)}
    (h : ∀ bucket ∈ buckets, bucket.2 ≠ []) : ∀ bucket ∈ addTo name id buckets, bucket.2 ≠ [] := by
  induction buckets with
  | nil => simp [addTo]
  | cons bucket rest ih =>
    obtain ⟨found, ids⟩ := bucket
    have hrest := ih fun b hb => h b (by simp [hb])
    have hhead : ids ≠ [] := h (found, ids) (by simp)
    rw [addTo]
    split
    · intro b hb
      rcases List.mem_cons.mp hb with rfl | hb
      · simp
      · exact h b (by simp [hb])
    · intro b hb
      rcases List.mem_cons.mp hb with rfl | hb
      · exact hhead
      · exact hrest b hb

theorem WellFormed.add {t : NameTable} (h : t.WellFormed) (k : Keyword) : (t.add k).WellFormed where
  names_nodup := by
    have hnodup := h.names_nodup
    unfold NameTable.names at hnodup ⊢
    rw [NameTable.add, map_fst_addTo]
    split
    · simpa using hnodup
    · next hnot =>
      refine List.nodup_append.mpr ⟨hnodup, by simp, ?_⟩
      rintro found hfound name hname rfl
      rw [List.mem_singleton] at hname
      exact hnot (hname ▸ hfound)
  nonempty := nonempty_addTo h.nonempty

/-- Listing a record appends, under each name, its keywords with that name. -/
theorem ids_link (t : NameTable) (f : SourceFile) (name : String) :
    (t.link f).ids name =
      t.ids name ++ (f.keywords.filter (·.lookupName = name)).map (·.id) := by
  unfold NameTable.link
  induction f.keywords generalizing t with
  | nil => simp
  | cons k rest ih =>
    rw [List.foldl_cons, ih, ids_add, List.append_assoc]
    by_cases h : k.lookupName = name <;> simp [h]

theorem WellFormed.link {t : NameTable} (h : t.WellFormed) (f : SourceFile) :
    (t.link f).WellFormed :=
  List.foldlRecOn (motive := WellFormed) f.keywords NameTable.add h fun _ h k _ => h.add k

/-- The table of some records lists their keywords in order. -/
theorem ids_ofFiles (files : List SourceFile) (name : String) :
    (ofFiles files).ids name =
      ((files.flatMap (·.keywords)).filter (·.lookupName = name)).map (·.id) := by
  have general : ∀ t : NameTable, (files.foldl NameTable.link t).ids name =
      t.ids name ++ ((files.flatMap (·.keywords)).filter (·.lookupName = name)).map (·.id) := by
    induction files with
    | nil => simp
    | cons f rest ih =>
      intro t
      rw [List.foldl_cons, ih, ids_link]
      simp
  have hempty : NameTable.ids {} name = [] := rfl
  rw [ofFiles, general, hempty, List.nil_append]

theorem wellFormed_ofFiles (files : List SourceFile) : (ofFiles files).WellFormed :=
  List.foldlRecOn (motive := WellFormed) files NameTable.link wellFormed_empty fun _ h f _ => h.link f

/-! ## Striking -/

theorem map_fst_strikeFrom_sublist (name : String) (file : Key)
    (buckets : List (String × List KeywordId)) :
    ((strikeFrom name file buckets).map (·.1)).Sublist (buckets.map (·.1)) := by
  induction buckets with
  | nil => simp [strikeFrom]
  | cons bucket rest ih =>
    obtain ⟨other, ids⟩ := bucket
    rw [strikeFrom]
    split
    · split
      · exact (List.sublist_cons_self _ _)
      · simp
    · exact ih.cons_cons _

theorem nonempty_strikeFrom {name : String} {file : Key} {buckets : List (String × List KeywordId)}
    (h : ∀ bucket ∈ buckets, bucket.2 ≠ []) :
    ∀ bucket ∈ strikeFrom name file buckets, bucket.2 ≠ [] := by
  induction buckets with
  | nil => simp [strikeFrom]
  | cons bucket rest ih =>
    obtain ⟨other, ids⟩ := bucket
    have hrest : ∀ b ∈ rest, b.2 ≠ [] := fun b hb => h b (by simp [hb])
    rw [strikeFrom]
    split
    · split
      · exact hrest
      · next first kept hkept =>
        intro b hb
        rcases List.mem_cons.mp hb with rfl | hb
        · simpa using hkept
        · exact hrest b hb
    · intro b hb
      rcases List.mem_cons.mp hb with rfl | hb
      · exact h _ (by simp)
      · exact ih hrest b hb

theorem WellFormed.strike {t : NameTable} (h : t.WellFormed) (file : Key) (k : Keyword) :
    (t.strike file k).WellFormed where
  names_nodup := (map_fst_strikeFrom_sublist k.lookupName file t.buckets).nodup h.names_nodup
  nonempty := nonempty_strikeFrom h.nonempty

theorem lookup_strikeFrom {name : String} {file : Key} {buckets : List (String × List KeywordId)}
    (hnodup : (buckets.map (·.1)).Nodup) (other : String) :
    ((strikeFrom name file buckets).lookup other).getD [] =
      if name = other then ((buckets.lookup other).getD []).filter (·.file ≠ file)
      else (buckets.lookup other).getD [] := by
  induction buckets with
  | nil => simp [strikeFrom]
  | cons bucket rest ih =>
    obtain ⟨found, ids⟩ := bucket
    simp only [List.map_cons, List.nodup_cons] at hnodup
    rw [strikeFrom, lookup_cons_eq_ite]
    by_cases hfound : found = name
    · -- the bucket of the struck name: it keeps the identifiers of other records, or goes
      subst hfound
      have hgone : rest.lookup found = none := lookup_eq_none hnodup.1
      rw [if_pos rfl]
      by_cases h : found = other
      · subst h
        split
        · next hkept => simp only [hgone, if_true, Option.getD_some, Option.getD_none, hkept]
        · next kept _ => simp only [lookup_cons_eq_ite, if_true, Option.getD_some]
      · split
        · simp [h]
        · simp [lookup_cons_eq_ite, h]
    · -- another bucket stays, and the rest is struck
      rw [if_neg hfound, lookup_cons_eq_ite]
      by_cases h : found = other
      · subst h
        simp [Ne.symm hfound]
      · rw [if_neg h, if_neg h]
        exact ih hnodup.2

/-- Striking a keyword takes the identifiers of its record away from under its name. -/
theorem WellFormed.ids_strike {t : NameTable} (h : t.WellFormed) (file : Key) (k : Keyword)
    (name : String) :
    (t.strike file k).ids name =
      if k.lookupName = name then (t.ids name).filter (·.file ≠ file) else t.ids name :=
  lookup_strikeFrom h.names_nodup name

theorem WellFormed.unlink {t : NameTable} (h : t.WellFormed) (f : SourceFile) :
    (t.unlink f).WellFormed :=
  List.foldlRecOn (motive := WellFormed) f.keywords (·.strike f.key) h fun _ h k _ => h.strike f.key k

/-- Striking a record takes its identifiers away from under each name of its keywords. -/
theorem WellFormed.ids_unlink {t : NameTable} (h : t.WellFormed) (f : SourceFile) (name : String) :
    (t.unlink f).ids name =
      if ∃ k ∈ f.keywords, k.lookupName = name then (t.ids name).filter (·.file ≠ f.key)
      else t.ids name := by
  unfold NameTable.unlink
  induction f.keywords generalizing t with
  | nil => simp
  | cons k rest ih =>
    rw [List.foldl_cons, ih (h.strike f.key k), h.ids_strike]
    -- two keywords of one name strike it twice, which is striking it once
    by_cases hk : k.lookupName = name
    · simp [hk, List.filter_filter]
    · simp [hk]

end KeywordIndex.NameTable
