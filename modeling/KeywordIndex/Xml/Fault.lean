namespace KeywordIndex.Xml

/-!
# Faults of a document

Why the markup of a document cannot be read, and how each cause is reported.
-/

/-- Why a reference cannot be replaced by text. Offsets count the bytes of the text that holds it. -/
inductive ReferenceFault where
  /-- The name between the offsets is not one of the five predefined ones. -/
  | unknownEntity (first last : Nat) (name : String)
  /-- No semicolon ends the reference that begins at `first`. -/
  | unterminated (first last : Nat)
  | signed
  | noDigits
  | badDigit
  | tooLarge
  /-- The number is not the code point of a character. -/
  | notCharacter (code : Nat)
  | zero
  deriving DecidableEq, Repr

namespace ReferenceFault

/-- The reported text. -/
def message : ReferenceFault → String
  | unknownEntity first last name => s!"at {first}..{last}: unrecognized entity `{name}`"
  | unterminated first last =>
    s!"Error while escaping character at range {first}..{last}: Cannot find ';' after '&'"
  | signed => "invalid character reference: unexpected number sign"
  | noDigits => "invalid character reference: cannot parse integer from empty string"
  | badDigit => "invalid character reference: invalid digit found in string"
  | tooLarge => "invalid character reference: number too large to fit in target type"
  | notCharacter code => s!"invalid character reference: `{code}` is not a valid codepoint"
  | zero => "invalid character reference: 0x0 character is not permitted in XML"

end ReferenceFault

/-- Why the attributes of a tag cannot be read. Offsets count bytes from the name of the tag. -/
inductive AttributeFault where
  | missingEquals (offset : Nat)
  | missingValue (offset : Nat)
  | unquotedValue (offset : Nat)
  | missingQuote (offset : Nat) (quote : Char)
  deriving DecidableEq, Repr

namespace AttributeFault

/-- The reported text. -/
def message : AttributeFault → String
  | missingEquals offset =>
    s!"position {offset}: attribute key must be directly followed by `=` or space"
  | missingValue offset => s!"position {offset}: `=` must be followed by an attribute value"
  | unquotedValue offset => s!"position {offset}: attribute value must be enclosed in `\"` or `'`"
  | missingQuote offset quote =>
    s!"position {offset}: missing closing quote `{quote}` in attribute value"

end AttributeFault

/-- Why a document cannot be read. -/
inductive Fault where
  | unclosedTag
  | unclosedComment
  | unclosedCharacterData
  | unclosedDoctype
  | unclosedInstruction
  /-- A `<!` that begins neither a comment, nor character data, nor a document type. -/
  | unknownMarkup
  | mismatchedEnd (expected found : String)
  | unmatchedEnd (found : String)
  | namelessDoctype
  | badAttribute (fault : AttributeFault)
  | badReference (fault : ReferenceFault)
  deriving DecidableEq, Repr

namespace Fault

/-- The reported text. -/
def message : Fault → String
  | unclosedTag => "syntax error: tag not closed: `>` not found before end of input"
  | unclosedComment => "syntax error: comment not closed: `-->` not found before end of input"
  | unclosedCharacterData => "syntax error: CDATA not closed: `]]>` not found before end of input"
  | unclosedDoctype => "syntax error: DOCTYPE not closed: `>` not found before end of input"
  | unclosedInstruction =>
    "syntax error: processing instruction or xml declaration not closed: " ++
      "`?>` not found before end of input"
  | unknownMarkup => "syntax error: unknown or missed symbol in markup"
  | mismatchedEnd expected found =>
    s!"ill-formed document: expected `</{expected}>`, but `</{found}>` was found"
  | unmatchedEnd found =>
    s!"ill-formed document: close tag `</{found}>` does not match any open tag"
  | namelessDoctype =>
    "ill-formed document: `<!DOCTYPE>` declaration does not contain a name of a document type"
  | badAttribute fault => "error while parsing attribute: " ++ fault.message
  | badReference fault => fault.message

end Fault

end KeywordIndex.Xml
