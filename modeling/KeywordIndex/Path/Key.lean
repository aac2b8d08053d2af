import KeywordIndex.Path.Basic
import KeywordIndex.Text.Lowercase

namespace KeywordIndex

open Text

/-!
# Identity keys

A record of the index is known by a key: the normal form of its path in lowercase, or the lowercase name
of a library. Two spellings of a path give the same key, and keys show which records lie in a directory.
-/

/-- The lowercase normal form of a path or library name. -/
structure Key where
  text : String
  deriving DecidableEq, Inhabited

namespace Key

/-- The key of a path or a library name written as text. -/
def ofText (text : String) : Key := ⟨String.ofList (lower (normalizeText text.toList))⟩

/-- Whether the key lies in the directory with key `directory` or is that key: `/a/b` is in `/a` and
`/ab` is not. -/
def isWithin (key directory : Key) : Bool :=
  if directory.text.isEmpty then true
  else
    match after? directory.text.toList key.text.toList with
    | none => false
    | some [] => true
    | some (c :: _) => c == '/' || directory.text.toList.getLast? == some '/'

end Key

/-- The key of a path. -/
def Path.key (p : Path) : Key := Key.ofText p.text

end KeywordIndex
