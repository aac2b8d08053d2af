import KeywordIndex.Outline
import KeywordIndex.Xml.Reference

namespace KeywordIndex.Libdoc

open Text

/-!
# Where keywords stand in a library document

The position of a keyword is found by its name: it is the place of the last marker that carries the name.
Of several keywords with one name, only the last gets the position.
-/

/-- What a start tag begins with that names a keyword. -/
def markerLead : List Char := "<kw name=\"".toList

/-- A start tag that names a keyword. -/
structure Marker where
  /-- The byte offset of the tag. -/
  offset : Nat
  name : List Char
  deriving DecidableEq, Repr

/-- The name written in a tag, without its references and the blanks around it. A name whose references
cannot be read is left as it is. -/
def writtenName (written : List Char) : List Char :=
  match Xml.unescape written with
  | .ok name => trim name
  | .error _ => trim written

/-- The markers of the text `cs`, which begins at byte `offset`. The search goes on at the mark that ends
a name, and is over when a name has no end. -/
def markersFrom (offset : Nat) (cs : List Char) : List Marker :=
  match h : cutAt? markerLead cs with
  | none => []
  | some (before, named) =>
    match hrest : named.dropWhile (· ≠ '"') with
    | [] => []
    | mark :: rest =>
      let written := named.takeWhile (· ≠ '"')
      let start := offset + byteLength before
      have : (mark :: rest).length < cs.length := by
        have inside := (List.dropWhile_sublist (· ≠ '"') (l := named)).length_le
        rw [hrest] at inside
        rw [eq_of_cutAt? h]
        have : 0 < markerLead.length := by decide
        simp only [List.length_append]
        omega
      ⟨start, writtenName written⟩ ::
        markersFrom (start + byteLength markerLead + byteLength written) (mark :: rest)
termination_by cs.length

/-- The markers of a document. -/
def markers (document : List Char) : List Marker := markersFrom 0 document

/-- The offset of the last marker with the given name. -/
def lastOffset? (name : String) (marks : List Marker) : Option Nat :=
  (marks.reverse.find? (·.name == name.toList)).map (·.offset)

/-- Gives every keyword that is the last of its name the place of its marker. -/
def place (index : LineIndex) (marks : List Marker) : List Declaration → List Declaration
  | [] => []
  | keyword :: rest =>
    let placed :=
      if rest.any (·.name == keyword.name) then keyword
      else { keyword with position := (lastOffset? keyword.name marks).map index.position }
    placed :: place index marks rest

end KeywordIndex.Libdoc
