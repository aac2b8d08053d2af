import KeywordIndex.Libdoc.Marker
import KeywordIndex.Libdoc.Walk

namespace KeywordIndex.Libdoc

/-!
# Library documents

A library document is read into an outline that has keywords only.
-/

/-- Reads a library document. The answer is nothing if the root element is another one. -/
def outline? (document : List Char) : Except Xml.Fault (Option Outline) :=
  (keywordsOf (Xml.read document)).map fun keywords? =>
    keywords?.map fun keywords =>
      { keywords := place (LineIndex.ofText document) (markers document) keywords }

/-- Reads a library document; one that cannot be read gives nothing. -/
def parse? (document : List Char) : Option Outline :=
  match outline? document with
  | .ok found => found
  | .error _ => none

/-- Whether the text is a library document with at least one keyword. -/
def isDocument (document : List Char) : Bool :=
  match parse? document with
  | some outline => outline.hasKeywords
  | none => false

end KeywordIndex.Libdoc
