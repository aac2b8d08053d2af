namespace KeywordIndex.Text

/-!
# UTF-8

Offsets and columns count the bytes of the UTF-8 form. Contents read from storage are bytes; the bytes
that are not UTF-8 are replaced when they are read as text. Main statement: `decode_encode`, a text is read
from its UTF-8 form.
-/

/-- Raw contents. -/
abbrev Bytes := List UInt8

/-- The number of bytes of the UTF-8 form. -/
def byteLength : List Char → Nat
  | [] => 0
  | c :: cs => c.utf8Size + byteLength cs

@[simp] theorem byteLength_append (a b : List Char) :
    byteLength (a ++ b) = byteLength a + byteLength b := by
  induction a with
  | nil => simp [byteLength]
  | cons c cs ih => simp [byteLength, ih, Nat.add_assoc]

/-- The UTF-8 form of a text. -/
def encode (cs : List Char) : Bytes := cs.flatMap String.utf8EncodeChar

theorem encode_cons (c : Char) (cs : List Char) :
    encode (c :: cs) = String.utf8EncodeChar c ++ encode cs := List.flatMap_cons

theorem encode_append (a b : List Char) : encode (a ++ b) = encode a ++ encode b := List.flatMap_append

/-- What a byte sequence that is not UTF-8 is read as. -/
def replacement : Char := '\uFFFD'

/-- A continuation byte in the given bounds. -/
def isTail (low high : Nat) (b : UInt8) : Bool := low ≤ b.toNat && b.toNat ≤ high

/-- The payload of a continuation byte. -/
def tailBits (b : UInt8) : Nat := b.toNat % 64

/-- The bounds of the byte after the lead byte of a form of three bytes. -/
def secondOfThree (lead : Nat) : Nat × Nat :=
  if lead = 0xE0 then (0xA0, 0xBF) else if lead = 0xED then (0x80, 0x9F) else (0x80, 0xBF)

/-- The bounds of the byte after the lead byte of a form of four bytes. -/
def secondOfFour (lead : Nat) : Nat × Nat :=
  if lead = 0xF0 then (0x90, 0xBF) else if lead = 0xF4 then (0x80, 0x8F) else (0x80, 0xBF)

/-- Reads the characters after the lead byte `lead`, and says how many of the bytes belong to it. A
form that breaks off is read as one replacement for the bytes that could begin a character. -/
def decodeAfter (lead : Nat) (rest : Bytes) : Char × Nat :=
  if lead < 0x80 then (Char.ofNat lead, 0)
  else if 0xC2 ≤ lead && lead ≤ 0xDF then
    match rest with
    | b :: _ =>
      if isTail 0x80 0xBF b then (Char.ofNat ((lead - 0xC0) * 64 + tailBits b), 1) else (replacement, 0)
    | [] => (replacement, 0)
  else if 0xE0 ≤ lead && lead ≤ 0xEF then
    let (low, high) := secondOfThree lead
    match rest with
    | b :: c :: _ =>
      if isTail low high b then
        if isTail 0x80 0xBF c then
          (Char.ofNat ((lead - 0xE0) * 4096 + tailBits b * 64 + tailBits c), 2)
        else (replacement, 1)
      else (replacement, 0)
    | [b] => (replacement, if isTail low high b then 1 else 0)
    | [] => (replacement, 0)
  else if 0xF0 ≤ lead && lead ≤ 0xF4 then
    let (low, high) := secondOfFour lead
    match rest with
    | b :: c :: d :: _ =>
      if isTail low high b then
        if isTail 0x80 0xBF c then
          if isTail 0x80 0xBF d then
            (Char.ofNat ((lead - 0xF0) * 262144 + tailBits b * 4096 + tailBits c * 64 + tailBits d), 3)
          else (replacement, 2)
        else (replacement, 1)
      else (replacement, 0)
    | [b, c] =>
      (replacement, if isTail low high b then (if isTail 0x80 0xBF c then 2 else 1) else 0)
    | [b] => (replacement, if isTail low high b then 1 else 0)
    | [] => (replacement, 0)
  else (replacement, 0)

/-- The characters of a byte sequence, with one replacement for each maximal part that cannot be read. -/
def decode : Bytes → List Char
  | [] => []
  | b :: rest =>
    let (c, used) := decodeAfter b.toNat rest
    c :: decode (rest.drop used)
termination_by bytes => bytes.length
decreasing_by simp only [List.length_drop, List.length_cons]; omega

/-! ## Reading what is written -/

theorem decode_cons_of {b : UInt8} {rest : Bytes} {c : Char} {used : Nat}
    (h : decodeAfter b.toNat rest = (c, used)) : decode (b :: rest) = c :: decode (rest.drop used) := by
  rw [decode, h]

theorem isTail_iff {low high : Nat} {b : UInt8} :
    isTail low high b = true ↔ low ≤ b.toNat ∧ b.toNat ≤ high := by
  simp [isTail]

section Forms

variable {lead : Nat} {b c d : UInt8} {rest : Bytes}

theorem decodeAfter_one (h : lead < 0x80) : decodeAfter lead rest = (Char.ofNat lead, 0) := by
  unfold decodeAfter
  rw [if_pos h]

theorem decodeAfter_two (h : 0xC2 ≤ lead ∧ lead ≤ 0xDF) (hb : isTail 0x80 0xBF b = true) :
    decodeAfter lead (b :: rest) = (Char.ofNat ((lead - 0xC0) * 64 + tailBits b), 1) := by
  unfold decodeAfter
  rw [if_neg (by omega), if_pos (by simpa using h)]
  simp only [hb, if_true]

theorem decodeAfter_three (h : 0xE0 ≤ lead ∧ lead ≤ 0xEF)
    (hb : isTail (secondOfThree lead).1 (secondOfThree lead).2 b = true) (hc : isTail 0x80 0xBF c = true) :
    decodeAfter lead (b :: c :: rest) =
      (Char.ofNat ((lead - 0xE0) * 4096 + tailBits b * 64 + tailBits c), 2) := by
  unfold decodeAfter
  rw [if_neg (by omega), if_neg (by simp; omega), if_pos (by simpa using h)]
  simp only [hb, hc, if_true]

theorem decodeAfter_four (h : 0xF0 ≤ lead ∧ lead ≤ 0xF4)
    (hb : isTail (secondOfFour lead).1 (secondOfFour lead).2 b = true) (hc : isTail 0x80 0xBF c = true)
    (hd : isTail 0x80 0xBF d = true) :
    decodeAfter lead (b :: c :: d :: rest) =
      (Char.ofNat ((lead - 0xF0) * 262144 + tailBits b * 4096 + tailBits c * 64 + tailBits d), 3) := by
  unfold decodeAfter
  rw [if_neg (by omega), if_neg (by simp; omega), if_neg (by simp; omega), if_pos (by simpa using h)]
  simp only [hb, hc, hd, if_true]

end Forms

/-- A character is read from its UTF-8 form. -/
theorem decode_utf8EncodeChar_append (c : Char) (rest : Bytes) :
    decode (String.utf8EncodeChar c ++ rest) = c :: decode rest := by
  have hval : c.val.toNat = c.toNat := rfl
  have hvalid : c.toNat < 0x110000 ∧ ¬ (0xD800 ≤ c.toNat ∧ c.toNat < 0xE000) := by
    rcases c.valid with h | ⟨h, hlast⟩ <;> omega
  have hchar {n : Nat} (h : n = c.toNat) : Char.ofNat n = c := by rw [h, Char.ofNat_toNat]
  have hbyte (n : Nat) (h : n < 256) : (UInt8.ofNat n).toNat = n := UInt8.toNat_ofNat_of_lt' h
  unfold String.utf8EncodeChar
  simp only [hval]
  generalize c.toNat = v at *
  -- the tails hold the digits of the code point
  have htail (n : Nat) : isTail 0x80 0xBF (UInt8.ofNat (n % 64 + 128)) = true ∧
      tailBits (UInt8.ofNat (n % 64 + 128)) = n % 64 := by
    rw [isTail_iff, tailBits, hbyte _ (by omega)]
    omega
  split
  · have hread : decodeAfter (UInt8.ofNat v).toNat rest = (c, 0) := by
      rw [hbyte _ (by omega), decodeAfter_one (by omega), hchar rfl]
    exact decode_cons_of hread
  · split
    · have hread : decodeAfter (UInt8.ofNat (v / 64 % 32 + 192)).toNat
          (UInt8.ofNat (v % 64 + 128) :: rest) = (c, 1) := by
        rw [hbyte _ (by omega), decodeAfter_two (by omega) (htail v).1, (htail v).2, hchar (by omega)]
      exact decode_cons_of hread
    · split
      · -- the second byte is within its bounds, since no form is longer than it must be
        have hsecond : isTail (secondOfThree (v / 4096 % 16 + 224)).1
            (secondOfThree (v / 4096 % 16 + 224)).2 (UInt8.ofNat (v / 64 % 64 + 128)) = true := by
          rw [isTail_iff, hbyte _ (by omega), secondOfThree]
          split
          · simp only
            omega
          · split <;> simp only <;> omega
        have hread : decodeAfter (UInt8.ofNat (v / 4096 % 16 + 224)).toNat
            (UInt8.ofNat (v / 64 % 64 + 128) :: UInt8.ofNat (v % 64 + 128) :: rest) = (c, 2) := by
          rw [hbyte _ (by omega), decodeAfter_three (by omega) hsecond (htail v).1, (htail v).2,
            (htail (v / 64)).2, hchar (by omega)]
        exact decode_cons_of hread
      · have hsecond : isTail (secondOfFour (v / 262144 % 8 + 240)).1
            (secondOfFour (v / 262144 % 8 + 240)).2 (UInt8.ofNat (v / 4096 % 64 + 128)) = true := by
          rw [isTail_iff, hbyte _ (by omega), secondOfFour]
          split
          · simp only
            omega
          · split <;> simp only <;> omega
        have hread : decodeAfter (UInt8.ofNat (v / 262144 % 8 + 240)).toNat
            (UInt8.ofNat (v / 4096 % 64 + 128) :: UInt8.ofNat (v / 64 % 64 + 128) ::
              UInt8.ofNat (v % 64 + 128) :: rest) = (c, 3) := by
          rw [hbyte _ (by omega), decodeAfter_four (by omega) hsecond (htail (v / 64)).1 (htail v).1,
            (htail v).2, (htail (v / 64)).2, (htail (v / 4096)).2, hchar (by omega)]
        exact decode_cons_of hread

/-- A text is read from its UTF-8 form. -/
theorem decode_encode (cs : List Char) : decode (encode cs) = cs := by
  induction cs with
  | nil => rw [encode, List.flatMap_nil, decode]
  | cons c cs ih => rw [encode_cons, decode_utf8EncodeChar_append, ih]

/-- No two texts have one UTF-8 form. -/
theorem encode_injective {a b : List Char} (h : encode a = encode b) : a = b := by
  rw [← decode_encode a, h, decode_encode]

end KeywordIndex.Text
