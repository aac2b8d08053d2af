import KeywordIndex.Index.Views
import KeywordIndex.Text.Utf8

namespace KeywordIndex.Query

open Text

/-!
# Scopes

What is typed before a keyword says which files are searched. A leading dot means every file, the
modifier for internal scope the current file, and the display name of a file or the local name of a
library the files that go by it. Without a dot the current file, its imports and the base library are
searched.
-/

/-- The kind of a scope. -/
inductive ScopeKind where
  | default
  | global
  | internal
  | fileQualified
  /-- The text cannot stand in one cell. -/
  | invalid
  /-- There is a dot, but nothing goes by what is before it. -/
  | unknown
  deriving DecidableEq, Repr

/-- Whether a qualifier stands before the keyword. -/
def ScopeKind.isQualified : ScopeKind → Bool
  | global => true
  | internal => true
  | fileQualified => true
  | _ => false

/-- The files that a query searches. -/
inductive Candidates where
  | all
  | only (keys : List Key)
  deriving DecidableEq

/-- Whether the record with the given key is searched. -/
def Candidates.contains (candidates : Candidates) (key : Key) : Bool :=
  match candidates with
  | all => true
  | only keys => keys.contains key

/-- What a typed text selects. -/
structure Scope where
  kind : ScopeKind
  /-- The text of the keyword, as typed. -/
  query : List Char
  /-- The byte offset of the query in the typed text. -/
  queryStart : Nat
  /-- The qualifier as typed, without its dot. -/
  qualifier : Option (List Char)
  candidates : Candidates

/-- What scopes depend on besides the typed text. -/
structure ScopeContext where
  index : Index
  /-- The record of the current file. -/
  current : Option SourceFile
  internalModifier : String
  baseLibrary : String

/-- Whether the text holds a tab or two spaces in a row, which separate cells. -/
def hasSeparator (text : List Char) : Bool := text.contains '\t' || occurs [' ', ' '] text

/-- The first part of a text that is equal to `name` up to the case of each character, and the rest. -/
def cutName? : (name text : List Char) → Option (List Char × List Char)
  | [], text => some ([], text)
  | _ :: _, [] => none
  | c :: name, d :: text =>
    if lowerChar d = lowerChar c then
      (cutName? name text).map fun (typed, rest) => (d :: typed, rest)
    else none

/-- A qualifier as typed, and the text after its dot. -/
structure Qualified where
  typed : List Char
  rest : List Char

/-- Cuts the qualifier `name` and its dot from a text. -/
def cutQualifier? (name : String) (text : List Char) : Option Qualified :=
  if name.isEmpty then none
  else
    match cutName? name.toList text with
    | some (typed, '.' :: rest) => some ⟨typed, rest⟩
    | _ => none

/-- The keys of the records displayed by a name, whatever the case of its ASCII letters. -/
def keysNamed (index : Index) (name : String) : List Key :=
  (index.files.filter (·.isNamed name)).map (·.key)

/-- The names that can qualify a keyword, each with the display name of the records that it stands for. -/
def qualifiers (cx : ScopeContext) : List (String × String) :=
  let displayed := cx.index.files.map fun f => (f.displayName, f.displayName)
  let locals :=
    match cx.current with
    | some f => f.libraries.filterMap fun l => l.localName.map fun name => (name, l.name)
    | none => []
  displayed ++ locals

/-- A qualified text with the records that the qualifier stands for. -/
structure QualifiedFiles where
  text : Qualified
  keys : List Key

namespace QualifiedFiles

/-- The bytes of the qualifier. -/
def size (q : QualifiedFiles) : Nat := byteLength q.text.typed

end QualifiedFiles

/-- The readings of a text with a qualifier that stands for some record. -/
def qualifications (cx : ScopeContext) (text : List Char) : List QualifiedFiles :=
  (qualifiers cx).filterMap fun (name, displayed) =>
    match cutQualifier? name text with
    | none => none
    | some cut =>
      match keysNamed cx.index displayed with
      | [] => none
      | keys => some ⟨cut, keys⟩

/-- The reading with the longest qualifier, and all records that a qualifier of that length stands for. -/
def fileQualifier? (cx : ScopeContext) (text : List Char) : Option QualifiedFiles :=
  match qualifications cx text with
  | [] => none
  | first :: rest =>
    let longest := rest.foldl (fun best q => if best.size < q.size then q else best) first
    let tied := (first :: rest).filter (·.size = longest.size)
    some ⟨longest.text, distinct (tied.flatMap (·.keys))⟩

/-- The records that a resource import brings in: the linked one while it is indexed, and otherwise all
with the name and extension that the import declares. -/
def importedKeys (index : Index) (r : ResourceImport) : List Key :=
  match r.resolved.filter index.contains with
  | some key => [key]
  | none => (index.files.filter r.matchesName).map (·.key)

/-- The base library, the current file, and what the current file imports. -/
def defaultKeys (cx : ScopeContext) : List Key :=
  let base := Key.ofText cx.baseLibrary
  let common := if cx.index.contains base then [base] else []
  match cx.current with
  | none => common
  | some f =>
    distinct (common ++ [f.key] ++ f.libraries.flatMap (fun l => keysNamed cx.index l.name) ++
      f.resources.flatMap (importedKeys cx.index))

/-- The scope that a typed text selects. -/
def detectScope (cx : ScopeContext) (typed : List Char) : Scope :=
  let text := trim typed
  let start := if text.isEmpty then 0 else byteLength typed - byteLength (trimStart typed)
  let qualified (kind : ScopeKind) (cut : Qualified) (candidates : Candidates) : Scope :=
    ⟨kind, cut.rest, start + byteLength cut.typed + 1, some cut.typed, candidates⟩
  if hasSeparator text then ⟨.invalid, text, start, none, .only []⟩
  else if !text.contains '.' then ⟨.default, text, start, none, .only (defaultKeys cx)⟩
  else
    match text with
    | '.' :: rest => qualified .global ⟨[], rest⟩ .all
    | _ =>
      match cutQualifier? cx.internalModifier text with
      | some cut => qualified .internal cut (.only (cx.current.toList.map (·.key)))
      | none =>
        match fileQualifier? cx text with
        | some q => qualified .fileQualified q.text (.only q.keys)
        | none => ⟨.unknown, text, start, none, .only (defaultKeys cx)⟩

end KeywordIndex.Query
