import KeywordIndex.Json.Fault
import KeywordIndex.Text.Utf8

namespace KeywordIndex.Json

open Text

/-!
# Quoted text

The text between quotation marks is read in two steps. First its escapes are taken apart, which is all
that a text needs that is passed over. Then the halves of surrogate pairs are put together; a half on its
own is a fault of a text that is wanted.
-/

/-- A piece of a quoted text. -/
inductive QuotePiece where
  | char (c : Char)
  /-- A code unit of 16 bits, written in hexadecimal. -/
  | unit (code : Nat)
  deriving DecidableEq, Repr

/-- How a quoted text ends. -/
inductive QuoteEnd where
  | closed
  | cut
  | controlCharacter
  | badEscape
  | badHexEscape
  deriving DecidableEq, Repr

/-- The fault of an end, if it is not the closing mark. -/
def QuoteEnd.fault? : QuoteEnd → Option Fault
  | closed => none
  | cut => some .cutString
  | controlCharacter => some .controlCharacter
  | badEscape => some .badEscape
  | badHexEscape => some .badEscape

/-- A quoted text. -/
structure Quote where
  pieces : List QuotePiece
  ending : QuoteEnd
  deriving DecidableEq, Repr

/-- The character of an escape of one letter. -/
def escaped? (c : Char) : Option Char :=
  if c = '"' ∨ c = '\\' ∨ c = '/' then some c
  else if c = 'b' then some '\x08'
  else if c = 'f' then some '\x0c'
  else if c = 'n' then some '\n'
  else if c = 'r' then some '\r'
  else if c = 't' then some '\t'
  else none

/-- The value of a hexadecimal digit. -/
def hexDigit? (c : Char) : Option Nat :=
  if '0' ≤ c ∧ c ≤ '9' then some (c.toNat - '0'.toNat)
  else if 'a' ≤ c ∧ c ≤ 'f' then some (c.toNat - 'a'.toNat + 10)
  else if 'A' ≤ c ∧ c ≤ 'F' then some (c.toNat - 'A'.toNat + 10)
  else none

/-- The code unit written with four hexadecimal digits. -/
def hexUnit? (a b c d : Char) : Option Nat := do
  let a ← hexDigit? a
  let b ← hexDigit? b
  let c ← hexDigit? c
  let d ← hexDigit? d
  return ((a * 16 + b) * 16 + c) * 16 + d

/-- A quoted text with the number of its characters, the closing mark included. -/
structure SizedQuote where
  quote : Quote
  size : Nat

namespace SizedQuote

/-- A quote that is over at once. -/
def stop (ending : QuoteEnd) (size : Nat) : SizedQuote := ⟨⟨[], ending⟩, size⟩

/-- Puts a piece of the given size in front. -/
def push (piece : QuotePiece) (size : Nat) (q : SizedQuote) : SizedQuote :=
  ⟨⟨piece :: q.quote.pieces, q.quote.ending⟩, q.size + size⟩

end SizedQuote

/-- Reads a quoted text after its opening mark. -/
def readQuote : List Char → SizedQuote
  | [] => .stop .cut 0
  | '"' :: _ => .stop .closed 1
  | '\\' :: 'u' :: a :: b :: c :: d :: cs =>
    match hexUnit? a b c d with
    | some code => (readQuote cs).push (.unit code) 6
    | none => .stop .badHexEscape 0
  | '\\' :: 'u' :: cs => .stop (if byteLength cs < 4 then .cut else .badHexEscape) 0
  | '\\' :: c :: cs =>
    match escaped? c with
    | some character => (readQuote cs).push (.char character) 2
    | none => .stop .badEscape 0
  | c :: cs =>
    if c = '\\' then .stop .cut 0
    else if c.toNat < 0x20 then .stop .controlCharacter 0
    else (readQuote cs).push (.char c) 1

/-- The first half of a surrogate pair. -/
def isHighSurrogate (code : Nat) : Bool := 0xD800 ≤ code && code ≤ 0xDBFF

/-- The second half of a surrogate pair. -/
def isLowSurrogate (code : Nat) : Bool := 0xDC00 ≤ code && code ≤ 0xDFFF

/-- What is at fault with a first half of a pair after which the pieces end. -/
def QuoteEnd.faultAfterHigh : QuoteEnd → Fault
  | cut => .cutString
  | badHexEscape => .badEscape
  | _ => .cutSurrogate

/-- The characters of the pieces of a text that ends in the given way. -/
def charactersOf (ending : QuoteEnd) : List QuotePiece → Except Fault (List Char)
  | [] =>
    match ending.fault? with
    | some fault => .error fault
    | none => .ok []
  | .char c :: rest => (charactersOf ending rest).map (c :: ·)
  | .unit code :: rest =>
    if isLowSurrogate code then .error .loneSurrogate
    else if isHighSurrogate code then
      match rest with
      | [] => .error ending.faultAfterHigh
      | .char _ :: _ => .error .cutSurrogate
      | .unit low :: rest =>
        if isLowSurrogate low then
          (charactersOf ending rest).map
            (Char.ofNat (0x10000 + (code - 0xD800) * 0x400 + (low - 0xDC00)) :: ·)
        else .error .loneSurrogate
    else (charactersOf ending rest).map (Char.ofNat code :: ·)

namespace Quote

/-- The text of a quote that is wanted. -/
def text (q : Quote) : Except Fault String := (charactersOf q.ending q.pieces).map String.ofList

/-- Passes over a quote that is not wanted. -/
def skim (q : Quote) : Except Fault Unit :=
  match q.ending.fault? with
  | some fault => .error fault
  | none => .ok ()

end Quote

end KeywordIndex.Json
