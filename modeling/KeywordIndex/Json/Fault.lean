namespace KeywordIndex.Json

/-!
# Faults of a JSON text

Why a text is not JSON, or its value not the one that is wanted, and how each cause is reported.
-/

/-- Why a value cannot be taken from a JSON text. -/
inductive Fault where
  | cutValue
  | cutList
  | cutObject
  | cutString
  | expectedValue
  | expectedWord
  | expectedColon
  | unseparatedItems
  | unseparatedMembers
  | keyNotString
  | trailingComma
  | trailingText
  | badNumber
  | numberTooLarge
  | badEscape
  | controlCharacter
  /-- A surrogate that is not the first half of a pair, or not followed by the second half. -/
  | loneSurrogate
  /-- The first half of a surrogate pair at the end of its escapes. -/
  | cutSurrogate
  | wrongType (found expected : String)
  | wrongValue (found expected : String)
  | wrongLength (length : Nat) (expected : String)
  | unknownVariant (name : String) (known : List String)
  | missingField (name : String)
  | duplicateField (name : String)
  deriving DecidableEq, Repr

namespace Fault

/-- The names in a text that offers them for choice. -/
def choice (names : List String) : String :=
  let marked := names.map fun name => s!"`{name}`"
  match marked with
  | [] => "there are no variants"
  | [only] => "expected " ++ only
  | [first, second] => "expected " ++ first ++ " or " ++ second
  | _ => "expected one of " ++ ", ".intercalate marked

/-- The reported text. -/
def message : Fault → String
  | cutValue => "EOF while parsing a value"
  | cutList => "EOF while parsing a list"
  | cutObject => "EOF while parsing an object"
  | cutString => "EOF while parsing a string"
  | expectedValue => "expected value"
  | expectedWord => "expected ident"
  | expectedColon => "expected `:`"
  | unseparatedItems => "expected `,` or `]`"
  | unseparatedMembers => "expected `,` or `\x7d`"
  | keyNotString => "key must be a string"
  | trailingComma => "trailing comma"
  | trailingText => "trailing characters"
  | badNumber => "invalid number"
  | numberTooLarge => "number out of range"
  | badEscape => "invalid escape"
  | controlCharacter => "control character (\\u0000-\\u001F) found while parsing a string"
  | loneSurrogate => "lone leading surrogate in hex escape"
  | cutSurrogate => "unexpected end of hex escape"
  | wrongType found expected => s!"invalid type: {found}, expected {expected}"
  | wrongValue found expected => s!"invalid value: {found}, expected {expected}"
  | wrongLength length expected => s!"invalid length {length}, expected {expected}"
  | unknownVariant name known => s!"unknown variant `{name}`, {choice known}"
  | missingField name => s!"missing field `{name}`"
  | duplicateField name => s!"duplicate field `{name}`"

end Fault

end KeywordIndex.Json
