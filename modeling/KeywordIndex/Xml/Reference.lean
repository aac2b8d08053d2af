import KeywordIndex.Text.Split
import KeywordIndex.Text.Utf8
import KeywordIndex.Xml.Fault

namespace KeywordIndex.Xml

open Text

/-!
# References

The five predefined entities and references to a character by its number are replaced by the text they
stand for. No other entity is known.
-/

/-- The text of a predefined entity. -/
def predefined? (name : List Char) : Option Char :=
  if name = ['l', 't'] then some '<'
  else if name = ['g', 't'] then some '>'
  else if name = ['a', 'm', 'p'] then some '&'
  else if name = ['a', 'p', 'o', 's'] then some '\x27'
  else if name = ['q', 'u', 'o', 't'] then some '"'
  else none

/-- The value of a digit in the given base. -/
def digit? (base : Nat) (c : Char) : Option Nat :=
  let value :=
    if '0' ≤ c ∧ c ≤ '9' then some (c.toNat - '0'.toNat)
    else if 'a' ≤ c ∧ c ≤ 'f' then some (c.toNat - 'a'.toNat + 10)
    else if 'A' ≤ c ∧ c ≤ 'F' then some (c.toNat - 'A'.toNat + 10)
    else none
  value.filter (· < base)

/-- The number written after the digits worth `value`; it must be below 2^32. -/
def numberFrom (base value : Nat) : List Char → Except ReferenceFault Nat
  | [] => .ok value
  | c :: cs =>
    match digit? base c with
    | none => .error .badDigit
    | some digit =>
      let next := value * base + digit
      if next < 0x100000000 then numberFrom base next cs else .error .tooLarge

/-- The number written in the given base. -/
def number (base : Nat) (digits : List Char) : Except ReferenceFault Nat :=
  match digits with
  | [] => .error .noDigits
  | '+' :: _ => .error .signed
  | '-' :: _ => .error .signed
  | _ => numberFrom base 0 digits

/-- The character with the given number, written in decimal or after an `x` in hexadecimal. -/
def numbered (digits : List Char) : Except ReferenceFault Char :=
  let code :=
    match digits with
    | 'x' :: hex => number 16 hex
    | _ => number 10 digits
  match code with
  | .error fault => .error fault
  | .ok 0 => .error .zero
  | .ok code => if code.isValidChar then .ok (Char.ofNat code) else .error (.notCharacter code)

/-- The character that a reference stands for, whose name begins at the given offset. -/
def referenced (offset : Nat) (name : List Char) : Except ReferenceFault Char :=
  match name with
  | '#' :: digits => numbered digits
  | _ =>
    match predefined? name with
    | some c => .ok c
    | none => .error (.unknownEntity offset (offset + byteLength name) (String.ofList name))

/-- A character that cannot stand in the name of a reference. -/
def endsReference (c : Char) : Bool := c == '&' || c == ';'

/-- Replaces the references of the text that begins at `offset` in a text of `total` bytes. -/
def unescapeFrom (total offset : Nat) : List Char → Except ReferenceFault (List Char)
  | [] => .ok []
  | c :: cs =>
    if c = '&' then
      let name := cs.takeWhile (!endsReference ·)
      match cs.drop name.length with
      | ';' :: _ =>
        match referenced (offset + 1) name with
        | .error fault => .error fault
        | .ok character =>
          (unescapeFrom total (offset + byteLength name + 2) (cs.drop (name.length + 1))).map
            (character :: ·)
      | _ => .error (.unterminated offset total)
    else (unescapeFrom total (offset + c.utf8Size) cs).map (c :: ·)
termination_by cs => cs.length
decreasing_by all_goals grind

/-- Replaces the references of a text. -/
def unescape (cs : List Char) : Except ReferenceFault (List Char) :=
  unescapeFrom (byteLength cs) 0 cs

end KeywordIndex.Xml
