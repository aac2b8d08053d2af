import KeywordIndex.Xml.Reference

namespace KeywordIndex.Xml

open Text

/-!
# Tags

A tag is a name and the attributes written after it. Attributes are read only as far as the one that is
looked for, so a fault behind it goes unseen.
-/

/-- The white space of markup. -/
def isSpace (c : Char) : Bool := c == ' ' || c == '\t' || c == '\r' || c == '\n'

/-- What stands between the angle brackets of a start tag, without a closing slash. -/
structure Tag where
  content : List Char
  deriving DecidableEq, Repr

namespace Tag

/-- The name, as it is written. -/
def name (t : Tag) : List Char := t.content.takeWhile (!isSpace ·)

/-- The part of a name after its first colon, or all of it. -/
def localPart (name : List Char) : List Char :=
  match name.dropWhile (· ≠ ':') with
  | [] => name
  | _ :: rest => rest

/-- The name without the part before its first colon. -/
def localName (t : Tag) : List Char := localPart t.name

/-- A character that continues the key of an attribute. -/
def isKeyChar (c : Char) : Bool := c != '=' && !isSpace c

/-- An attribute as it is written, and the text after it. -/
structure RawAttribute where
  key : List Char
  value : List Char
  rest : List Char

/-- Reads the value of an attribute after its equals sign, in a tag of `total` bytes. -/
def quotedValue (total : Nat) (key cs : List Char) : Except AttributeFault RawAttribute :=
  match cs.dropWhile isSpace with
  | [] => .error (.missingValue total)
  | quote :: quoted =>
    if quote = '"' ∨ quote = '\x27' then
      match quoted.dropWhile (· ≠ quote) with
      | [] => .error (.missingQuote total quote)
      | _ :: rest => .ok ⟨key, quoted.takeWhile (· ≠ quote), rest⟩
    else .error (.unquotedValue (total - byteLength (quote :: quoted)))

/-- Reads the attribute whose key begins with `first`, in a tag of `total` bytes. The first character
belongs to the key whatever it is. -/
def attributeAfter (total : Nat) (first : Char) (cs : List Char) : Except AttributeFault RawAttribute :=
  match (cs.dropWhile isKeyChar).dropWhile isSpace with
  | [] => .error (.missingEquals total)
  | c :: value =>
    if c = '=' then quotedValue total (first :: cs.takeWhile isKeyChar) value
    else .error (.missingEquals (total - byteLength (c :: value)))

theorem quotedValue_length {total : Nat} {key cs : List Char} {found : RawAttribute}
    (h : quotedValue total key cs = .ok found) : found.rest.length ≤ cs.length := by
  have spaces := (List.dropWhile_sublist isSpace (l := cs)).length_le
  rw [quotedValue] at h
  split at h
  · simp at h
  · next quote quoted hcs =>
    rw [hcs, List.length_cons] at spaces
    have inside := (List.dropWhile_sublist (· ≠ quote) (l := quoted)).length_le
    split at h
    · split at h
      · simp at h
      · next hquoted =>
        rw [hquoted, List.length_cons] at inside
        cases h
        simp only
        omega
    · simp at h

theorem attributeAfter_length {total : Nat} {first : Char} {cs : List Char} {found : RawAttribute}
    (h : attributeAfter total first cs = .ok found) : found.rest.length ≤ cs.length := by
  have keyChars := (List.dropWhile_sublist isKeyChar (l := cs)).length_le
  have spaces := (List.dropWhile_sublist isSpace (l := cs.dropWhile isKeyChar)).length_le
  rw [attributeAfter] at h
  split at h
  · simp at h
  · next hcs =>
    rw [hcs, List.length_cons] at spaces
    split at h
    · have := quotedValue_length h
      omega
    · simp at h

/-- The value of the attribute `key` among those in `cs`, the last part of a tag of `total` bytes. -/
def valueFrom (key : List Char) (total : Nat) (cs : List Char) :
    Except AttributeFault (Option (List Char)) :=
  match _start : cs.dropWhile isSpace with
  | [] => .ok none
  | first :: more =>
    match _found : attributeAfter total first more with
    | .error fault => .error fault
    | .ok found =>
      if found.key = key then .ok (some found.value) else valueFrom key total found.rest
termination_by cs.length
decreasing_by
  have spaces := (List.dropWhile_sublist isSpace (l := cs)).length_le
  have shorter := attributeAfter_length _found
  rw [_start, List.length_cons] at spaces
  omega

/-- The value of an attribute, with its references replaced. -/
def value? (t : Tag) (key : List Char) : Except Fault (Option (List Char)) :=
  match valueFrom key (byteLength t.content) (t.content.drop t.name.length) with
  | .error fault => .error (.badAttribute fault)
  | .ok none => .ok none
  | .ok (some value) =>
    match unescape value with
    | .error fault => .error (.badReference fault)
    | .ok text => .ok (some text)

end Tag

end KeywordIndex.Xml
