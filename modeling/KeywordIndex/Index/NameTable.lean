import KeywordIndex.Index.Record

namespace KeywordIndex

/-!
# Name table

The name table lists, for each lookup name, the identifiers of the keywords with that name in the order
in which they were added. A name without keywords is not in the table.
-/

/-- The identifiers of keywords by lookup name. -/
structure NameTable where
  buckets : List (String × List KeywordId) := []
  deriving DecidableEq

namespace NameTable

/-- The identifiers listed under a name. -/
def ids (t : NameTable) (name : String) : List KeywordId := (t.buckets.lookup name).getD []

/-- The names in the table. -/
def names (t : NameTable) : List String := t.buckets.map (·.1)

/-- The number of listed identifiers. -/
def size (t : NameTable) : Nat := (t.buckets.flatMap fun bucket => bucket.2).length

/-- Lists an identifier last under its name. -/
def addTo (name : String) (id : KeywordId) :
    List (String × List KeywordId) → List (String × List KeywordId)
  | [] => [(name, [id])]
  | (other, ids) :: rest =>
    if other = name then (other, ids ++ [id]) :: rest else (other, ids) :: addTo name id rest

/-- Strikes the identifiers of a record from under a name, and the name with its last identifier. -/
def strikeFrom (name : String) (file : Key) :
    List (String × List KeywordId) → List (String × List KeywordId)
  | [] => []
  | (other, ids) :: rest =>
    if other = name then
      match ids.filter (·.file ≠ file) with
      | [] => rest
      | kept => (other, kept) :: rest
    else (other, ids) :: strikeFrom name file rest

/-- Lists a keyword. -/
def add (t : NameTable) (k : Keyword) : NameTable := ⟨addTo k.lookupName k.id t.buckets⟩

/-- Strikes all keywords of a record that have the name of the given one. -/
def strike (file : Key) (t : NameTable) (k : Keyword) : NameTable :=
  ⟨strikeFrom k.lookupName file t.buckets⟩

/-- Lists the keywords of a record. -/
def link (t : NameTable) (f : SourceFile) : NameTable := f.keywords.foldl add t

/-- Strikes the keywords of a record. -/
def unlink (t : NameTable) (f : SourceFile) : NameTable := f.keywords.foldl (strike f.key) t

/-- The table of some records. -/
def ofFiles (files : List SourceFile) : NameTable := files.foldl link {}

end NameTable

end KeywordIndex
