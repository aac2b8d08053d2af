import KeywordIndex.Text.Utf8
import Mathlib.Data.List.Basic

namespace KeywordIndex.Text

/-! # Slices at byte offsets

A text is sliced at byte offsets. There is no slice if an offset is behind the end of the text or falls inside
a character, so a slice is always a part of the text (`slice?_eq_some_iff`).
-/

theorem eq_nil_of_byteLength {cs : List Char} (h : byteLength cs = 0) : cs = [] := by
  cases cs with
  | nil => rfl
  | cons c rest =>
    have := Char.utf8Size_pos c
    rw [byteLength] at h
    omega

/-- Parts of one text from its start on are told apart by their sizes. -/
theorem append_inj_of_byteLength {a b c d : List Char} (h : a ++ c = b ++ d)
    (hsize : byteLength a = byteLength b) : a = b ∧ c = d := by
  obtain ⟨more, rfl, rfl⟩ | ⟨more, rfl, rfl⟩ := List.append_eq_append_iff.mp h
  · rw [byteLength_append] at hsize
    have hmore : more = [] := eq_nil_of_byteLength (by omega)
    simp [hmore]
  · rw [byteLength_append] at hsize
    have hmore : more = [] := eq_nil_of_byteLength (by omega)
    simp [hmore]

/-- The text before and behind a byte offset. -/
def cutBytes? : Nat → List Char → Option (List Char × List Char)
  | 0, cs => some ([], cs)
  | _ + 1, [] => none
  | size + 1, c :: cs =>
    if c.utf8Size ≤ size + 1 then
      (cutBytes? (size + 1 - c.utf8Size) cs).map fun (front, back) => (c :: front, back)
    else none

/-- The text between two byte offsets. -/
def slice? (start stop : Nat) (cs : List Char) : Option (List Char) :=
  if start ≤ stop then do
    let (_, back) ← cutBytes? start cs
    let (front, _) ← cutBytes? (stop - start) back
    some front
  else none

variable {cs front back part : List Char} {size start stop : Nat}

theorem cutBytes?_eq_some_iff :
    cutBytes? size cs = some (front, back) ↔ cs = front ++ back ∧ byteLength front = size := by
  fun_induction cutBytes? size cs generalizing front with
  | case1 cs =>
    constructor
    · intro h
      obtain ⟨rfl, rfl⟩ := Prod.mk.inj (Option.some.inj h)
      exact ⟨rfl, rfl⟩
    · rintro ⟨rfl, hsize⟩
      rw [eq_nil_of_byteLength hsize]
      rfl
  | case2 size =>
    constructor
    · intro h
      cases h
    · rintro ⟨happend, hsize⟩
      obtain ⟨rfl, -⟩ := List.append_eq_nil_iff.mp happend.symm
      cases hsize
  | case3 size c cs hfits ih =>
    simp only [Option.map_eq_some_iff, Prod.exists, Prod.mk.injEq]
    constructor
    · rintro ⟨more, rest, hcut, rfl, rfl⟩
      obtain ⟨rfl, hsize⟩ := ih.mp hcut
      refine ⟨rfl, ?_⟩
      rw [byteLength]
      omega
    · rintro ⟨happend, hsize⟩
      cases front with
      | nil => cases hsize
      | cons d more =>
        obtain ⟨rfl, rfl⟩ := List.cons.inj happend
        rw [byteLength] at hsize
        exact ⟨more, back, ih.mpr ⟨rfl, by omega⟩, rfl, rfl⟩
  | case4 size c cs hlong =>
    constructor
    · intro h
      cases h
    · rintro ⟨happend, hsize⟩
      cases front with
      | nil => cases hsize
      | cons d more =>
        obtain ⟨rfl, -⟩ := List.cons.inj happend
        rw [byteLength] at hsize
        omega

theorem slice?_eq_some_iff : slice? start stop cs = some part ↔
    ∃ before rest, cs = before ++ (part ++ rest) ∧ byteLength before = start ∧
      byteLength before + byteLength part = stop := by
  unfold slice?
  constructor
  · intro h
    split at h
    · next hle =>
      simp only [Option.bind_eq_bind, Option.bind_eq_some_iff, Prod.exists, Option.some.injEq] at h
      obtain ⟨before, back, hcut, part, rest, hpart, rfl⟩ := h
      obtain ⟨rfl, hbefore⟩ := cutBytes?_eq_some_iff.mp hcut
      obtain ⟨rfl, hsize⟩ := cutBytes?_eq_some_iff.mp hpart
      exact ⟨before, rest, rfl, hbefore, by omega⟩
    · cases h
  · rintro ⟨before, rest, rfl, rfl, rfl⟩
    have hcut : cutBytes? (byteLength before) (before ++ (part ++ rest)) = some (before, part ++ rest) :=
      cutBytes?_eq_some_iff.mpr ⟨rfl, rfl⟩
    have hpart : cutBytes? (byteLength part) (part ++ rest) = some (part, rest) :=
      cutBytes?_eq_some_iff.mpr ⟨rfl, rfl⟩
    simp [hcut, hpart]

/-- The slice of an initial part. -/
theorem slice?_front (front back : List Char) : slice? 0 (byteLength front) (front ++ back) = some front :=
  slice?_eq_some_iff.mpr ⟨[], back, rfl, rfl, Nat.zero_add _⟩

/-- The slice up to the end. -/
theorem slice?_back (front back : List Char) :
    slice? (byteLength front) (byteLength (front ++ back)) (front ++ back) = some back :=
  slice?_eq_some_iff.mpr ⟨front, [], by rw [List.append_nil], rfl, (byteLength_append front back).symm⟩

end KeywordIndex.Text
