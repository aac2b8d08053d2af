import KeywordIndex.Text.Split

namespace KeywordIndex

open Text

/-!
# Normal form of a path

A path is normalized on its text alone: both kinds of slash separate, empty and `.` segments vanish, and
`..` takes away the segment before it. Above the root there is nothing, so an absolute path drops a
leading `..` and a relative one keeps it.
-/

/-- One name between slashes. -/
abbrev Segment := List Char

/-- The segment that names the directory it stands in. -/
def currentSegment : Segment := ['.']

/-- The segment that names the directory above. -/
def parentSegment : Segment := ['.', '.']

/-- A path with all resolvable segments resolved. -/
structure NormalPath where
  absolute : Bool
  segments : List Segment
  deriving DecidableEq

namespace NormalPath

/-- Backslashes separate segments as slashes do. -/
def unifySlash (c : Char) : Char := if c = '\\' then '/' else c

/-- Enters one segment from the directory reached by `above`, innermost segment first. -/
def enter (absolute : Bool) (above : List Segment) (segment : Segment) : List Segment :=
  if segment = [] ∨ segment = currentSegment then above
  else if segment = parentSegment then
    match above with
    | [] => if absolute then [] else [parentSegment]
    | inner :: outer => if inner = parentSegment then parentSegment :: inner :: outer else outer
  else segment :: above

/-- The normal form of a list of segments. -/
def ofSegments (absolute : Bool) (segments : List Segment) : NormalPath :=
  ⟨absolute, (segments.foldl (enter absolute) []).reverse⟩

/-- The normal form of a path written as text. -/
def ofText (text : List Char) : NormalPath :=
  let unified := text.map unifySlash
  ofSegments (unified.head? == some '/') (split '/' unified)

/-- The one way to write a normal form; the current directory is written `.`. -/
def render (p : NormalPath) : List Char :=
  let joined := join ['/'] p.segments
  if p.absolute then '/' :: joined else if joined = [] then currentSegment else joined

end NormalPath

/-- The normal form of a path, as text. -/
def normalizeText (text : List Char) : List Char := (NormalPath.ofText text).render

end KeywordIndex
