import KeywordIndex.Outline
import KeywordIndex.Xml.Event

namespace KeywordIndex.Libdoc

open Text

/-!
# Keywords of a library document

A library document has a `keywordspec` element as its root. Its keywords are the `kw` elements directly
below the root, or below a `keywords` element there. The arguments of a keyword are the texts of its
`arg` elements; only if all of these are blank they are taken from the `repr` attributes. The events of
the document are walked once, with the names of the open elements and the keyword under way.
-/

/-- The name of the root element. -/
def rootName : List Char := "keywordspec".toList

/-- The name of the element that holds the keywords in the newer form. -/
def keywordsName : List Char := "keywords".toList

/-- The name of a keyword element. -/
def keywordName : List Char := "kw".toList

/-- The name of the element that holds the arguments of a keyword. -/
def argumentsName : List Char := "arguments".toList

/-- The name of an argument element. -/
def argumentName : List Char := "arg".toList

/-- The name of the documentation element of a keyword. -/
def documentationName : List Char := "doc".toList

/-- The attribute that names a keyword. -/
def nameAttribute : List Char := "name".toList

/-- The attribute that writes out an argument in the newer form. -/
def reprAttribute : List Char := "repr".toList

/-- The local names of the open elements, innermost first. -/
abbrev ElementPath := List (List Char)

namespace ElementPath

/-- Whether the innermost element is a keyword. -/
def isKeyword : ElementPath → Bool
  | [kw, root] => kw == keywordName && root == rootName
  | [kw, keywords, root] => kw == keywordName && keywords == keywordsName && root == rootName
  | _ => false

/-- Whether the innermost element is an argument of a keyword. -/
def isArgument : ElementPath → Bool
  | arg :: arguments :: outer =>
    arg == argumentName && arguments == argumentsName && isKeyword outer
  | _ => false

/-- Whether the innermost element is the documentation of a keyword. -/
def isDocumentation : ElementPath → Bool
  | doc :: outer => doc == documentationName && isKeyword outer
  | _ => false

end ElementPath

/-- A keyword whose element is open. -/
structure Draft where
  name : List Char
  documentation : List Char := []
  /-- The texts of the arguments read so far that are not blank. -/
  texts : List (List Char) := []
  /-- The `repr` attributes of the arguments read so far. -/
  representations : List (List Char) := []
  /-- The text of the argument whose element is open. -/
  argument : Option (List Char) := none

namespace Draft

/-- Begins a keyword at its tag. -/
def ofTag (tag : Xml.Tag) : Except Xml.Fault Draft :=
  (tag.value? nameAttribute).map fun name => { name := name.getD [] }

/-- Begins an argument at its tag. -/
def openArgument (d : Draft) (tag : Xml.Tag) : Except Xml.Fault Draft :=
  (tag.value? reprAttribute).map fun written =>
    { d with representations := d.representations ++ written.toList, argument := some [] }

/-- Ends the argument under way. -/
def closeArgument (d : Draft) : Draft :=
  let text := trim (d.argument.getD [])
  { d with texts := if text.isEmpty then d.texts else d.texts ++ [text], argument := none }

/-- Adds a text that stands directly in the innermost element. -/
def addText (d : Draft) (path : ElementPath) (content : List Char) : Draft :=
  if path.isDocumentation then { d with documentation := d.documentation ++ content }
  else if path.isArgument then { d with argument := d.argument.map (· ++ content) }
  else d

/-- The finished keyword, without a position. -/
def finish (d : Draft) : Declaration where
  name := String.ofList (trim d.name)
  documentation := String.ofList (trim d.documentation)
  arguments := (if d.texts.isEmpty then d.representations else d.texts).map Argument.ofText
  position := none

end Draft

/-- Where a walk through a document stands. -/
structure Walk where
  path : ElementPath := []
  draft : Option Draft := none
  keywords : List Declaration := []
  /-- Whether a root element has been opened. -/
  rooted : Bool := false

/-- Why a walk ends before the document does. -/
inductive Stop where
  /-- The root element is not that of a library document. -/
  | foreignRoot
  /-- The root element closes itself. -/
  | emptyRoot
  | faulty (fault : Xml.Fault)

namespace Walk

/-- Opens an element. -/
def openElement (w : Walk) (tag : Xml.Tag) : Except Xml.Fault Walk :=
  let path : ElementPath := tag.localName :: w.path
  let inside := { w with path := path, rooted := true }
  if path.isKeyword then (Draft.ofTag tag).map fun draft => { inside with draft := some draft }
  else
    match w.draft with
    | some draft =>
      if path.isArgument then
        (draft.openArgument tag).map fun draft => { inside with draft := some draft }
      else .ok inside
    | none => .ok inside

/-- Closes the innermost element. -/
def closeElement (w : Walk) : Walk :=
  let outside := { w with path := w.path.drop 1 }
  match w.draft with
  | none => outside
  | some draft =>
    if w.path.isKeyword then
      { outside with draft := none, keywords := w.keywords ++ [draft.finish] }
    else if w.path.isArgument then { outside with draft := some draft.closeArgument }
    else outside

/-- Reads the tag of an element that closes itself, below the root. -/
def passElement (w : Walk) (tag : Xml.Tag) : Except Xml.Fault Walk :=
  let path : ElementPath := tag.localName :: w.path
  if path.isKeyword then
    (Draft.ofTag tag).map fun draft => { w with keywords := w.keywords ++ [draft.finish] }
  else
    match w.draft with
    | some draft =>
      if path.isArgument then
        (draft.openArgument tag).map fun draft => { w with draft := some draft.closeArgument }
      else .ok w
    | none => .ok w

/-- Adds a text to the keyword under way. -/
def addText (w : Walk) (content : List Char) : Walk :=
  { w with draft := w.draft.map (·.addText w.path content) }

/-- Reads one event. References in a text matter only inside a keyword. -/
def read (w : Walk) (event : Xml.Event) : Except Stop Walk :=
  match event with
  | .opened tag =>
    if w.path.isEmpty && tag.localName != rootName then .error .foreignRoot
    else (w.openElement tag).mapError .faulty
  | .selfClosed tag =>
    if w.path.isEmpty then .error (if tag.localName == rootName then .emptyRoot else .foreignRoot)
    else (w.passElement tag).mapError .faulty
  | .closed => .ok w.closeElement
  | .text content =>
    if w.draft.isNone then .ok w
    else ((Xml.unescape content).mapError fun fault => .faulty (.badReference fault)).map w.addText
  | .characterData content => .ok (w.addText content)
  | .skipped => .ok w

end Walk

/-- The keywords of a document without their positions, or nothing if it is no library document. A fault
counts only if the walk gets as far. -/
def keywordsOf (reading : Xml.Reading) : Except Xml.Fault (Option (List Declaration)) :=
  match reading.events.foldlM Walk.read {} with
  | .error .foreignRoot => .ok none
  | .error .emptyRoot => .ok (some [])
  | .error (.faulty fault) => .error fault
  | .ok walk =>
    match reading.fault with
    | some fault => .error fault
    | none => .ok (if walk.rooted then some walk.keywords else none)

end KeywordIndex.Libdoc
