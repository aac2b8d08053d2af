import KeywordIndex.Text.Utf8
import Mathlib.Data.List.Lex
import Mathlib.Data.String.Basic

namespace KeywordIndex.Text

/-! # The order of bytes

Names are compared by their code points. That is the order of their UTF-8 forms, byte by byte
(`bytesOf_lt_iff`): the lead byte grows with the length of the form, and within one length the bytes are
the digits of the code point, the highest first.
-/

/-- The bytes of the UTF-8 form of a text, as numbers. -/
def bytesOf (s : String) : List Nat := (encode s.toList).map UInt8.toNat

theorem ofNat_lt_ofNat_iff {m n : Nat} (hm : m < 256) (hn : n < 256) :
    UInt8.ofNat m < UInt8.ofNat n ↔ m < n := by
  rw [UInt8.lt_iff_toNat_lt, UInt8.toNat_ofNat', UInt8.toNat_ofNat', Nat.mod_eq_of_lt hm,
    Nat.mod_eq_of_lt hn]

theorem ofNat_eq_ofNat_iff {m n : Nat} (hm : m < 256) (hn : n < 256) :
    UInt8.ofNat m = UInt8.ofNat n ↔ m = n := by
  rw [← UInt8.toNat_inj, UInt8.toNat_ofNat', UInt8.toNat_ofNat', Nat.mod_eq_of_lt hm,
    Nat.mod_eq_of_lt hn]

/-- The forms of two characters differ before either ends, so what follows them does not count. -/
theorem utf8EncodeChar_append_lt {c d : Char} (h : c < d) (after other : Bytes) :
    String.utf8EncodeChar c ++ after < String.utf8EncodeChar d ++ other := by
  have hlt : c.val.toNat < d.val.toNat := h
  have hbound : d.val.toNat < 0x110000 := by
    rcases d.valid with hvalid | ⟨-, hvalid⟩
    · omega
    · exact hvalid
  unfold String.utf8EncodeChar
  simp only
  generalize c.val.toNat = m at *
  generalize d.val.toNat = n at *
  -- every digit is taken from the quotient before it
  have digits (k : Nat) : k / 4096 = k / 64 / 64 ∧ k / 262144 = k / 64 / 64 / 64 := by omega
  simp only [digits]
  split_ifs <;>
    simp (disch := omega) only [List.cons_append, List.nil_append, List.cons_lt_cons_iff,
      ofNat_lt_ofNat_iff, ofNat_eq_ofNat_iff] <;>
    omega

theorem encode_lt_encode {a b : List Char} (h : a < b) : encode a < encode b := by
  induction h with
  | @nil c cs =>
    -- no form is empty
    have hne : encode (c :: cs) ≠ [] := by
      rw [encode_cons]
      unfold String.utf8EncodeChar
      simp only
      split_ifs <;> simp
    obtain ⟨byte, rest, hbytes⟩ := List.exists_cons_of_ne_nil hne
    rw [hbytes]
    exact List.nil_lt_cons byte rest
  | cons _ ih =>
    rw [encode_cons, encode_cons]
    exact List.append_left_lt ih
  | rel hchar =>
    rw [encode_cons, encode_cons]
    exact utf8EncodeChar_append_lt hchar _ _

theorem bytesOf_strictMono : StrictMono bytesOf := by
  intro a b h
  exact List.map_lt (fun _ _ hlt => UInt8.lt_iff_toNat_lt.mp hlt)
    (encode_lt_encode (String.lt_iff_toList_lt.mp h))

/-- Bytes are ordered as code points are. -/
theorem bytesOf_lt_iff {a b : String} : bytesOf a < bytesOf b ↔ a < b := bytesOf_strictMono.lt_iff_lt

theorem bytesOf_inj {a b : String} : bytesOf a = bytesOf b ↔ a = b := bytesOf_strictMono.injective.eq_iff

theorem compare_of_bytes_lt {a b : Bytes} (h : a < b) : compare a b = .lt := by
  rw [List.compare_eq_compareLex]
  induction h with
  | nil => rfl
  | cons _ ih =>
    rw [List.compareLex_cons_cons, Std.compare_self, ih]
    rfl
  | rel hbyte =>
    rw [List.compareLex_cons_cons, Std.compare_eq_lt.mpr hbyte]
    rfl

/-- Texts are compared as their UTF-8 forms are. -/
theorem compare_encode (a b : String) : compare (encode a.toList) (encode b.toList) = compare a b := by
  have hless {a b : String} (h : a < b) : compare (encode a.toList) (encode b.toList) = .lt :=
    compare_of_bytes_lt (encode_lt_encode (String.lt_iff_toList_lt.mp h))
  rcases lt_trichotomy a b with h | rfl | h
  · rw [hless h, compare_lt_iff_lt.mpr h]
  · rw [Std.compare_self, compare_eq_iff_eq.mpr rfl]
  · rw [Std.OrientedCmp.gt_iff_lt.mpr (hless h), compare_gt_iff_gt.mpr h]

end KeywordIndex.Text
