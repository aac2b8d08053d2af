import KeywordIndex.Index.Basic

namespace KeywordIndex

open Text

/-!
# Import resolution

A declared import is resolved if its path, seen from the directory of the importing file, is that of an
existing file. The import is linked if that file is indexed; otherwise the file is missing from the index.
Paths that are built from variables are never resolved.
-/

/-- Whether the path is built from variables. -/
def isComputed (declared : String) : Bool :=
  match cutAt? ['$', '\x7b'] declared.toList with
  | some (_, rest) => rest.contains '\x7d'
  | none => false

/-- The path that an import in the given directory denotes. -/
def importTarget (declared : String) (directory : Path) : Path :=
  let path := (Path.mk declared).normalize
  if path.isAbsolute then path else (directory.join path).normalize

/-- The existing file that an import in the given directory denotes. -/
def resolveImport? (isFile : Path → Bool) (directory : Path) (declared : String) : Option Path :=
  if isComputed declared then none
  else
    let target := importTarget declared directory
    if isFile target then some target else none

/-- Adds a path to a list in the order of components, unless it is there. -/
def insertPath (path : Path) : List Path → List Path
  | [] => [path]
  | other :: rest =>
    if path.sameAs other then other :: rest
    else if path.precedes other then path :: other :: rest
    else other :: insertPath path rest

/-- A resolved index with the files that are imported but not indexed, in the order of components. -/
structure Resolution where
  index : Index
  missing : List Path

namespace Index

/-- The link of an import: the key of its target, if the target exists and is indexed. -/
def link? (index : Index) (isFile : Path → Bool) (directory : Path) (r : ResourceImport) : Option Key :=
  match resolveImport? isFile directory r.declared with
  | some target => if index.contains target.key then some target.key else none
  | none => none

/-- The target of an import, if it exists and is not indexed. -/
def missing? (index : Index) (isFile : Path → Bool) (directory : Path) (r : ResourceImport) :
    Option Path :=
  match resolveImport? isFile directory r.declared with
  | some target => if index.contains target.key then none else some target
  | none => none

/-- Links the imports of the record with the given key. -/
def resolve (index : Index) (isFile : Path → Bool) (key : Key) : Resolution :=
  match index.file? key with
  | none => ⟨index, []⟩
  | some f =>
    match f.baseDirectory? with
    | none => ⟨index, []⟩
    | some directory =>
      ⟨index.relink key (f.resources.map (index.link? isFile directory)),
        (f.resources.filterMap (index.missing? isFile directory)).foldr insertPath []⟩

/-- Links the imports of every record. -/
def resolveAll (index : Index) (isFile : Path → Bool) : Resolution :=
  let importing := (index.files.filter fun f => !f.resources.isEmpty).map (·.key)
  importing.foldl
    (fun resolution key =>
      let next := resolution.index.resolve isFile key
      ⟨next.index, next.missing.foldr insertPath resolution.missing⟩)
    ⟨index, []⟩

end Index

end KeywordIndex
