import KeywordIndex.Index.NameTable

namespace KeywordIndex

/-!
# Index

The index keeps the records in the order in which their keys were first added, and a name table over
their keywords. Every operation changes both in step. Only `rebuild` computes the table anew. Main
statements: `file?_add` and `file?_remove` say what is found afterwards.
-/

/-- The records and the name table over them. -/
structure Index where
  files : List SourceFile := []
  names : NameTable := {}
  deriving DecidableEq

namespace Index

/-! ## Looking up -/

/-- The record with the given key. -/
def file? (index : Index) (key : Key) : Option SourceFile := index.files.find? (·.key = key)

/-- Whether a record has the given key. -/
def contains (index : Index) (key : Key) : Bool := (index.file? key).isSome

/-- The record of a path, whatever its spelling. -/
def fileByPath? (index : Index) (path : Path) : Option SourceFile := index.file? path.normalize.key

/-- The keyword with the given identifier. -/
def keyword? (index : Index) (id : KeywordId) : Option Keyword :=
  (index.file? id.file).bind fun f => f.keywords[id.ordinal]?

/-- The keywords with the given name, in the order in which they were added. -/
def keywordsNamed (index : Index) (name : String) : List Keyword :=
  (index.names.ids (lookupName name)).filterMap index.keyword?

/-! ## Changing -/

/-- Puts a record in the place of the one with its key, or last. -/
def putIn (f : SourceFile) : List SourceFile → List SourceFile
  | [] => [f]
  | other :: rest => if other.key = f.key then f :: rest else other :: putIn f rest

theorem find?_putIn (f : SourceFile) (files : List SourceFile) (key : Key) :
    (putIn f files).find? (·.key = key) =
      if f.key = key then some f else files.find? (·.key = key) := by
  induction files with
  | nil => simp [putIn]
  | cons other rest ih =>
    rw [putIn]
    split <;> grind

/-- The name table without the keywords of the record with the given key. -/
def unlinkKey (index : Index) (key : Key) : NameTable :=
  match index.file? key with
  | some f => index.names.unlink f
  | none => index.names

/-- Adds a record, replacing the one with its key. -/
def add (index : Index) (f : SourceFile) : Index :=
  ⟨putIn f index.files, (index.unlinkKey f.key).link f⟩

/-- Removes the record with the given key. -/
def remove (index : Index) (key : Key) : Index :=
  ⟨index.files.filter (·.key ≠ key), index.unlinkKey key⟩

/-- Adding a record changes what is found under its key and nothing else. -/
theorem file?_add (index : Index) (f : SourceFile) (key : Key) :
    (index.add f).file? key = if f.key = key then some f else index.file? key :=
  find?_putIn f index.files key

/-- Removing a record changes what is found under its key and nothing else. -/
theorem file?_remove (index : Index) (removed key : Key) :
    (index.remove removed).file? key = if removed = key then none else index.file? key := by
  simp only [file?, remove, List.find?_filter]
  grind

/-- Computes the name table from the records. -/
def rebuild (index : Index) : Index := ⟨index.files, NameTable.ofFiles index.files⟩

/-- Removes every record. -/
def clear (_ : Index) : Index := {}

/-- Removes every record in the directory with the given key. -/
def removeWithin (index : Index) (directory : Key) : Index :=
  rebuild { index with files := index.files.filter fun f => !f.key.isWithin directory }

/-- Removes every record in a directory, or every record if none is given. -/
def reset (index : Index) (directory? : Option Path) : Index :=
  match directory? with
  | some directory => index.removeWithin directory.normalize.key
  | none => index.clear

/-- Replaces the links of the record with the given key, import by import. Keywords stay as they are. -/
def relink (index : Index) (key : Key) (links : List (Option Key)) : Index :=
  let relinked (f : SourceFile) : SourceFile :=
    { f with resources := List.zipWith (fun r link => { r with resolved := link }) f.resources links }
  { index with files := index.files.map fun f => if f.key = key then relinked f else f }

end Index

end KeywordIndex
