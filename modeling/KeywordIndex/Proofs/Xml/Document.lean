import KeywordIndex.Xml.Event

namespace KeywordIndex.Xml

open Text

/-! # Well-formed documents

A document is built up from its parts, each of which carries what its characters must satisfy, and is
`written` as text. Every well-formed document is written in this way, as long as it refers to no entity but
the predefined ones and the brackets of its document type are balanced. What a document type declares is passed
over, values of attributes among it, and line ends stay as they are. What is demanded of the parts is
what keeps them apart from what follows, which is less than the standard demands: names may hold any
character that is no markup, and text outside the root element is not restricted.
-/

/-! ## Text -/

/-- Decides by going through the text; the instance for all characters goes through every one there is. -/
instance (priority := 2000) decidableForallMem (p : Char → Prop) [DecidablePred p] (cs : List Char) :
    Decidable (∀ c ∈ cs, p c) := List.decidableBAll p cs

/-- A digit as it is written; a letter among the digits may be a capital. -/
structure Digit where
  value : Fin 16
  capital : Bool := false

def Digit.char (d : Digit) : Char :=
  if d.value.val < 10 then Char.ofNat ('0'.toNat + d.value)
  else Char.ofNat ((if d.capital then 'A' else 'a').toNat + (d.value - 10))

/-- The number of a character, in decimal or hexadecimal digits. -/
structure Numeral where
  isHexadecimal : Bool
  digits : List Digit
  nonempty : digits ≠ []
  bounded : ∀ d ∈ digits, d.value.val < if isHexadecimal then 16 else 10

namespace Numeral

def base (n : Numeral) : Nat := if n.isHexadecimal then 16 else 10

def value (n : Numeral) : Nat := n.digits.foldl (fun value d => value * n.base + d.value) 0

def written (n : Numeral) : List Char :=
  (if n.isHexadecimal then ['x'] else []) ++ n.digits.map Digit.char

end Numeral

/-- What a reference may stand for. -/
inductive Reference where
  | less
  | greater
  | ampersand
  | apostrophe
  | quotation
  /-- A character by its number. -/
  | numbered (n : Numeral) (valid : n.value.isValidChar) (nonzero : n.value ≠ 0)

namespace Reference

/-- What stands between the ampersand and the semicolon. -/
def name : Reference → List Char
  | less => ['l', 't']
  | greater => ['g', 't']
  | ampersand => ['a', 'm', 'p']
  | apostrophe => ['a', 'p', 'o', 's']
  | quotation => ['q', 'u', 'o', 't']
  | numbered n _ _ => '#' :: n.written

def char : Reference → Char
  | less => '<'
  | greater => '>'
  | ampersand => '&'
  | apostrophe => '\x27'
  | quotation => '"'
  | numbered n _ _ => Char.ofNat n.value

end Reference

/-- A character of a text, as itself or as a reference. -/
inductive Symbol where
  | literal (c : Char) (plain : c ≠ '<' ∧ c ≠ '&')
  | reference (r : Reference)

namespace Symbol

def written : Symbol → List Char
  | literal c _ => [c]
  | reference r => '&' :: r.name ++ [';']

def char : Symbol → Char
  | literal c _ => c
  | reference r => r.char

end Symbol

/-- The text of some symbols, and what it stands for. -/
def writtenText (symbols : List Symbol) : List Char := symbols.flatMap Symbol.written

def textOf (symbols : List Symbol) : List Char := symbols.map Symbol.char

/-- Character data, which holds no references. -/
structure CharacterData where
  content : List Char
  closed : ¬ [']', ']', '>'] <:+: content

/-! ## Tags -/

/-- White space between the parts of a tag, which may be empty. -/
structure Spacing where
  text : List Char
  blank : ∀ c ∈ text, isSpace c = true

/-- A character that has a meaning in a tag. -/
def isMark (c : Char) : Bool :=
  isSpace c || ['<', '>', '/', '=', '"', '\x27', '!', '?', '&'].contains c

/-- The name of an element or of an attribute. -/
structure Name where
  text : List Char
  nonempty : text ≠ []
  plain : ∀ c ∈ text, isMark c = false

inductive QuoteMark where
  | double
  | single

def QuoteMark.char : QuoteMark → Char
  | double => '"'
  | single => '\x27'

/-- An attribute with the white space before it. -/
structure Attribute where
  lead : Spacing
  apart : lead.text ≠ []
  key : Name
  beforeEquals : Spacing
  afterEquals : Spacing
  mark : QuoteMark
  value : List Symbol
  closed : mark.char ∉ writtenText value

def Attribute.written (a : Attribute) : List Char :=
  a.lead.text ++ a.key.text ++ a.beforeEquals.text ++
    '=' :: (a.afterEquals.text ++ a.mark.char :: (writtenText a.value ++ [a.mark.char]))

/-- A start tag without its brackets. -/
structure StartTag where
  name : Name
  attributes : List Attribute
  trail : Spacing

namespace StartTag

def written (t : StartTag) : List Char :=
  t.name.text ++ t.attributes.flatMap Attribute.written ++ t.trail.text

/-- The tag that is read. -/
def tag (t : StartTag) : Tag := ⟨t.written⟩

/-- The name without the part before its first colon. -/
def localName (t : StartTag) : List Char := Tag.localPart t.name.text

/-- The value of an attribute. -/
def attribute? (t : StartTag) (key : List Char) : Option (List Char) :=
  (t.attributes.find? (·.key.text = key)).map fun a => textOf a.value

end StartTag

/-! ## Content -/

/-- Every `>` closes a `<`, and all are closed. -/
structure Balanced (cs : List Char) : Prop where
  opened : ∀ before, before <+: cs → before.count '>' ≤ before.count '<'
  closed : cs.count '<' = cs.count '>'

/-- What is passed over: comments, instructions and the document type. -/
inductive Aside where
  | comment (content : List Char) (closed : ¬ ['-', '-', '>'] <:+: content)
  | instruction (content : List Char) (closed : ¬ ['?', '>'] <:+: '?' :: content)
  | doctype (content : List Char) (named : ∃ c ∈ content, isSpace c = false) (balanced : Balanced content)

/-- An aside after its `<`. -/
def Aside.written : Aside → List Char
  | comment content _ => ['!', '-', '-'] ++ content ++ ['-', '-', '>']
  | instruction content _ => '?' :: content ++ ['?', '>']
  | doctype content _ _ => ['!', 'D', 'O', 'C', 'T', 'Y', 'P', 'E'] ++ content ++ ['>']

/-- What stands between two tags: text, with other parts in between. Each of these has the text before it
and the content after it. -/
inductive Content where
  | text (symbols : List Symbol)
  | aside (before : List Symbol) (aside : Aside) (rest : Content)
  | characterData (before : List Symbol) (data : CharacterData) (rest : Content)
  /-- An element that closes itself. -/
  | selfClosed (before : List Symbol) (tag : StartTag) (rest : Content)
  /-- An element with its content; `trail` stands behind the name in the end tag. -/
  | element (before : List Symbol) (tag : StartTag) (inner : Content) (trail : Spacing) (rest : Content)

namespace Content

def written : Content → List Char
  | text symbols => writtenText symbols
  | aside before a rest => writtenText before ++ '<' :: (a.written ++ rest.written)
  | characterData before data rest =>
    writtenText before ++ '<' :: (['!', '[', 'C', 'D', 'A', 'T', 'A', '['] ++
      (data.content ++ [']', ']', '>'] ++ rest.written))
  | selfClosed before tag rest => writtenText before ++ '<' :: (tag.written ++ '/' :: '>' :: rest.written)
  | element before tag inner trail rest =>
    writtenText before ++ '<' :: (tag.written ++ '>' ::
      (inner.written ++ '<' :: '/' :: (tag.name.text ++ trail.text ++ '>' :: rest.written)))

/-- The event of a text, which is none if the text is empty. -/
def textEvents (symbols : List Symbol) : List Event :=
  if symbols.isEmpty then [] else [.text (writtenText symbols)]

/-- The events that the content is read as. -/
def events : Content → List Event
  | text symbols => textEvents symbols
  | aside before _ rest => textEvents before ++ .skipped :: rest.events
  | characterData before data rest => textEvents before ++ .characterData data.content :: rest.events
  | selfClosed before tag rest => textEvents before ++ .selfClosed tag.tag :: rest.events
  | element before tag inner _ rest =>
    textEvents before ++ .opened tag.tag :: (inner.events ++ .closed :: rest.events)

end Content

/-! ## Elements -/

/-- An element; one without a body closes itself. -/
structure Element where
  tag : StartTag
  body : Option Content

/-- A part of a content that counts. -/
inductive Piece where
  | text (content : List Char)
  | child (e : Element)

namespace Content

def pieces : Content → List Piece
  | text symbols => [.text (textOf symbols)]
  | aside before _ rest => .text (textOf before) :: rest.pieces
  | characterData before data rest => .text (textOf before) :: .text data.content :: rest.pieces
  | selfClosed before tag rest => .text (textOf before) :: .child ⟨tag, none⟩ :: rest.pieces
  | element before tag inner _ rest => .text (textOf before) :: .child ⟨tag, some inner⟩ :: rest.pieces

end Content

/-- The text of a piece that is not an element. -/
def Piece.ownText : Piece → List Char
  | text content => content
  | child _ => []

def Piece.child? : Piece → Option Element
  | text _ => none
  | child e => some e

namespace Element

def localName (e : Element) : List Char := e.tag.localName

def pieces (e : Element) : List Piece :=
  match e.body with
  | none => []
  | some content => content.pieces

/-- The value of an attribute. -/
def attribute? (e : Element) (key : List Char) : Option (List Char) := e.tag.attribute? key

/-- The text and character data directly inside the element. -/
def directText (e : Element) : List Char := e.pieces.flatMap Piece.ownText

/-- The elements directly inside the element. -/
def children (e : Element) : List Element := e.pieces.filterMap Piece.child?

/-- The children with the local name. -/
def below (e : Element) (name : List Char) : List Element := e.children.filter (·.localName = name)

/-- The events between the tags. -/
def innerEvents (e : Element) : List Event :=
  match e.body with
  | none => []
  | some content => content.events

/-- The events that the element is read as. -/
def events (e : Element) : List Event :=
  match e.body with
  | none => [.selfClosed e.tag.tag]
  | some content => .opened e.tag.tag :: (content.events ++ [.closed])

end Element

theorem Content.events_selfClosed (before : List Symbol) (tag : StartTag) (rest : Content) :
    (selfClosed before tag rest).events =
      textEvents before ++ ((⟨tag, none⟩ : Element).events ++ rest.events) := rfl

theorem Content.events_element (before : List Symbol) (tag : StartTag) (inner : Content) (trail : Spacing)
    (rest : Content) : (element before tag inner trail rest).events =
      textEvents before ++ ((⟨tag, some inner⟩ : Element).events ++ rest.events) := by
  simp [events, Element.events]

/-- A document: its content is one element and what is around it. -/
structure Document where
  /-- Whether a byte order mark comes first. -/
  isMarked : Bool
  content : Content
  unmarked : content.written.head? ≠ some '\uFEFF'
  root : Element
  single : content.pieces.filterMap Piece.child? = [root]

def Document.written (d : Document) : List Char :=
  (if d.isMarked then ['\uFEFF'] else []) ++ d.content.written

end KeywordIndex.Xml
