import KeywordIndex.Path.Normal
import KeywordIndex.Text.Utf8

namespace KeywordIndex

open Text

/-!
# Paths

A path keeps its spelling for display. Two spellings name the same place if they have the same
components: repeated slashes, inner `.` and a trailing slash make no difference, while `..` is kept.
Paths are texts here, but a system keeps them as bytes (`RawPath`), and the name of an entry may be no text.
-/

/-- A path as it was written. -/
structure Path where
  text : String
  deriving DecidableEq, Inhabited

/-- The name of an entry that is not UTF-8. -/
@[ext] structure RawName where
  bytes : Bytes
  not_text : encode (decode bytes) ≠ bytes
  deriving DecidableEq

/-- No text has the bytes of a name that is not UTF-8. -/
theorem RawName.encode_ne (n : RawName) (cs : List Char) : encode cs ≠ n.bytes := by
  intro h
  refine n.not_text ?_
  rw [← h, decode_encode]

/-- One step of a path. -/
inductive Component where
  /-- The leading slash. -/
  | root
  /-- A leading `.`. -/
  | current
  /-- A `..`. -/
  | parent
  /-- An entry of a directory. -/
  | name (segment : String)
  /-- An entry of a directory whose name is no text. -/
  | raw (name : RawName)
  deriving DecidableEq

namespace Component

/-- The component on its own, read as text: bytes that are not UTF-8 are replaced. -/
def text : Component → String
  | root => "/"
  | current => "."
  | parent => ".."
  | name segment => segment
  | raw n => String.ofList (decode n.bytes)

/-- How the component is written on its own. -/
def bytes : Component → Bytes
  | raw n => n.bytes
  | c => encode c.text.toList

/-- Whether the component is written as a text. -/
def isText : Component → Bool
  | raw _ => false
  | _ => true

/-- The place of the kind of component in the order of components. -/
def rank : Component → Nat
  | root => 0
  | current => 1
  | parent => 2
  | name _ => 3
  | raw _ => 3

/-- Components are ordered by their kind, and names by their bytes. -/
instance : Ord Component := ⟨compareLex (compareOn rank) (compareOn bytes)⟩

instance : Std.TransOrd Component :=
  inferInstanceAs (Std.TransCmp (compareLex (compareOn rank) (compareOn bytes)))

/-- Components of one kind are told by their bytes. -/
theorem eq_of_bytes {a b : Component} (hrank : a.rank = b.rank) (hbytes : a.bytes = b.bytes) : a = b := by
  cases a with
  | name s =>
    cases b with
    | name t => exact congrArg name (String.toList_inj.mp (encode_injective hbytes))
    | raw n => exact absurd hbytes (n.encode_ne s.toList)
    | _ => cases hrank
  | raw n =>
    cases b with
    | name t => exact absurd hbytes.symm (n.encode_ne t.toList)
    | raw m => exact congrArg raw (RawName.ext hbytes)
    | _ => cases hrank
  | root | current | parent => cases b <;> simp_all [rank]

instance : Std.LawfulEqOrd Component where
  eq_of_compare {a b} h := by
    have ⟨hrank, hbytes⟩ : compareOn rank a b = .eq ∧ compareOn bytes a b = .eq :=
      compareLex_eq_eq.1 h
    exact eq_of_bytes (Std.LawfulEqOrd.eq_of_compare hrank) (Std.LawfulEqOrd.eq_of_compare hbytes)

/-- The component written as a segment that is neither empty nor `.`. -/
def ofSegment (segment : Segment) : Component :=
  if segment = parentSegment then parent else name (String.ofList segment)

/-- The component written with the bytes of a segment that is neither empty nor `.`. -/
def ofBytes (bytes : Bytes) : Component :=
  if h : encode (decode bytes) = bytes then ofSegment (decode bytes) else raw ⟨bytes, h⟩

/-- The components of a path, with the given slash and dot, where `step` reads a segment. -/
def listOf {α : Type} [DecidableEq α] (slash dot : α) (step : List α → Component) (path : List α) :
    List Component :=
  let segments := split slash path
  let named := (segments.filter fun s => s ≠ [] ∧ s ≠ [dot]).map step
  if path.head? = some slash then .root :: named
  else if segments.head? = some [dot] then .current :: named
  else named

end Component

namespace Path

/-- Whether the path begins at the root. -/
def isAbsolute (p : Path) : Bool := p.text.toList.head? == some '/'

/-- The components of the path. -/
def components (p : Path) : List Component := Component.listOf '/' '.' Component.ofSegment p.text.toList

/-- Whether two spellings name the same place. -/
def sameAs (p q : Path) : Bool := p.components == q.components

/-- Whether `p` comes before `q`, comparing component by component. -/
def precedes (p q : Path) : Bool := compare p.components q.components == .lt

/-- The name of the last component, if it is an entry of a directory. -/
def fileName? (p : Path) : Option String :=
  match p.components.getLast? with
  | some (.name segment) => some segment
  | _ => none

/-- A file name cut at its last dot; a name whose only dot is its first character is not cut. -/
def cutExtension (name : List Char) : List Char × Option (List Char) :=
  match name.reverse.span (· ≠ '.') with
  | (_, []) => (name, none)
  | (_, [_]) => (name, none)
  | (extension, _ :: stem) => (stem.reverse, some extension.reverse)

/-- The file name without its extension. -/
def stem? (p : Path) : Option String :=
  p.fileName?.map fun name => String.ofList (cutExtension name.toList).1

/-- What follows the last dot of the file name. -/
def extension? (p : Path) : Option String :=
  p.fileName?.bind fun name => (cutExtension name.toList).2.map String.ofList

/-- The file name without its extension, empty if there is none. -/
def stem (p : Path) : String := p.stem?.getD ""

/-- The extension with its dot, empty if there is none. -/
def dottedExtension (p : Path) : String :=
  match p.extension? with
  | some extension => "." ++ extension
  | none => ""

/-- Drops the segments at the end, given backwards, that name no component. -/
def dropIdle (segments : List Segment) : List Segment :=
  segments.dropWhile fun s => s = [] ∨ s = currentSegment

/-- The path without its last component; the root and the empty path have none. -/
def parent? (p : Path) : Option Path :=
  match p.components.getLast? with
  | none => none
  | some .root => none
  | some _ =>
    let backwards := (split '/' p.text.toList).reverse
    let outer := dropIdle ((dropIdle backwards).drop 1)
    let joined := join ['/'] outer.reverse
    if !joined.isEmpty then some ⟨String.ofList joined⟩
    else if p.isAbsolute then some ⟨"/"⟩
    else
      match p.components with
      | .current :: _ :: _ => some ⟨"."⟩
      | _ => some ⟨""⟩

/-- The path `q` seen from the directory `p`. -/
def join (p q : Path) : Path :=
  if q.isAbsolute then q
  else if p.text.isEmpty || p.text.toList.getLast? == some '/' then ⟨p.text ++ q.text⟩
  else ⟨p.text ++ "/" ++ q.text⟩

/-- The normal form of the path, with its case kept. -/
def normalize (p : Path) : Path := ⟨String.ofList (normalizeText p.text.toList)⟩

end Path

/-- A path as the bytes that a system keeps. -/
structure RawPath where
  bytes : Bytes
  deriving DecidableEq, Inhabited

/-- The bytes of a path that is a text. -/
def Path.raw (p : Path) : RawPath := ⟨encode p.text.toList⟩

namespace RawPath

def slash : UInt8 := 0x2F

def dot : UInt8 := 0x2E

/-- The components of the path. -/
def components (p : RawPath) : List Component := Component.listOf slash dot Component.ofBytes p.bytes

/-- The entry with the given name, seen from the directory `p`. -/
def join (p : RawPath) (name : String) : RawPath :=
  if name.toList.head? == some '/' then Path.raw ⟨name⟩
  else if p.bytes.isEmpty || p.bytes.getLast? == some slash then ⟨p.bytes ++ encode name.toList⟩
  else ⟨p.bytes ++ slash :: encode name.toList⟩

end RawPath

end KeywordIndex
