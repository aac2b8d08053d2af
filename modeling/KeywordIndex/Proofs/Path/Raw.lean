import KeywordIndex.Proofs.Path.Joining

namespace KeywordIndex

open Text

/-! # Paths as bytes

A system keeps paths as bytes. Only a slash has the byte of a slash in its UTF-8 form, so a path that is a text
has the same components in its bytes (`components_raw`), and an entry is joined to it the same way (`join_raw`).
An entry that is a text is one step more (`components_join_text`), while one that is not is not found by what it
reads as.
-/

/-! ## Texts among bytes -/

namespace Text

/-- A byte below 0x80 is the form of a character on its own. -/
theorem toNat_of_mem_utf8EncodeChar {c : Char} {b : UInt8} (hb : b ∈ String.utf8EncodeChar c)
    (hlow : b.toNat < 0x80) : c.toNat = b.toNat := by
  have hval : c.val.toNat = c.toNat := rfl
  have hbyte {n : Nat} (h : b = UInt8.ofNat n) : b.toNat = n % 256 := by rw [h, UInt8.toNat_ofNat']
  unfold String.utf8EncodeChar at hb
  simp only [hval] at hb
  split at hb
  · have hn := hbyte (List.mem_singleton.mp hb)
    omega
  · -- the bytes of a longer form are all 0x80 or above
    exfalso
    split at hb
    · simp only [List.mem_cons, List.not_mem_nil, or_false] at hb
      rcases hb with hb | hb <;> have hn := hbyte hb <;> omega
    · split at hb
      · simp only [List.mem_cons, List.not_mem_nil, or_false] at hb
        rcases hb with hb | hb | hb <;> have hn := hbyte hb <;> omega
      · simp only [List.mem_cons, List.not_mem_nil, or_false] at hb
        rcases hb with hb | hb | hb | hb <;> have hn := hbyte hb <;> omega

theorem utf8EncodeChar_ne_nil (c : Char) : String.utf8EncodeChar c ≠ [] := by
  intro hnil
  have hread := decode_utf8EncodeChar_append c []
  rw [hnil, List.nil_append, decode] at hread
  cases hread

theorem encode_slash : encode ['/'] = [RawPath.slash] := by decide

/-- Only a slash has the byte of a slash in its form. -/
theorem slash_mem_encode_iff {cs : List Char} : RawPath.slash ∈ encode cs ↔ '/' ∈ cs := by
  rw [encode, List.mem_flatMap]
  constructor
  · rintro ⟨c, hc, hb⟩
    have hcode := toNat_of_mem_utf8EncodeChar hb (by decide)
    have hslash : c = '/' := by rw [← Char.ofNat_toNat c, hcode]; rfl
    exact hslash ▸ hc
  · exact fun hc => ⟨'/', hc, by decide⟩

theorem encode_join (pieces : List (List Char)) :
    encode (join ['/'] pieces) = join [RawPath.slash] (pieces.map encode) := by
  induction pieces with
  | nil => rfl
  | cons piece rest ih =>
    cases rest with
    | nil => rfl
    | cons next rest =>
      rw [List.map_cons] at ih
      rw [join_cons_cons, encode_append, encode_append, encode_slash, ih, List.map_cons, List.map_cons,
        join_cons_cons]

/-- The bytes of a text are cut at the slashes of the text. -/
theorem split_encode (cs : List Char) : split RawPath.slash (encode cs) = (split '/' cs).map encode := by
  have hne : (split '/' cs).map encode ≠ [] := by
    rw [Ne, List.map_eq_nil_iff]
    exact splitWhere_ne_nil _ cs
  have hclear : ∀ piece ∈ (split '/' cs).map encode, RawPath.slash ∉ piece := by
    intro piece hpiece
    obtain ⟨text, htext, rfl⟩ := List.mem_map.mp hpiece
    rw [slash_mem_encode_iff]
    exact fun hmem => (mem_split htext hmem).2 rfl
  have hjoined := split_join hne hclear
  rwa [← encode_join, join_split] at hjoined

theorem encode_eq_nil_iff {cs : List Char} : encode cs = [] ↔ cs = [] :=
  ⟨fun h => encode_injective h, fun h => h ▸ rfl⟩

theorem encode_eq_dot_iff {cs : List Char} : encode cs = [RawPath.dot] ↔ cs = ['.'] :=
  ⟨fun h => encode_injective h, fun h => h ▸ rfl⟩

theorem head?_encode_iff {cs : List Char} : (encode cs).head? = some RawPath.slash ↔ cs.head? = some '/' := by
  cases cs with
  | nil => simp [encode]
  | cons c cs =>
    rw [encode_cons, List.head?_append_of_ne_nil _ (utf8EncodeChar_ne_nil c), List.head?_cons,
      Option.some_inj]
    constructor
    · intro h
      have hmem : RawPath.slash ∈ encode [c] := by
        simpa [encode] using List.mem_of_head? h
      simpa [eq_comm] using slash_mem_encode_iff.mp hmem
    · rintro rfl
      decide

/-- The bytes of a text end with a slash as the text does. -/
theorem getLast?_encode_iff {cs : List Char} :
    (encode cs).getLast? = some RawPath.slash ↔ cs.getLast? = some '/' := by
  rcases List.eq_nil_or_concat cs with rfl | ⟨before, c, rfl⟩
  · simp [encode]
  · have hlast : encode [c] = String.utf8EncodeChar c := by simp [encode]
    rw [List.concat_eq_append, encode_append, hlast,
      List.getLast?_append_of_ne_nil _ (utf8EncodeChar_ne_nil c), List.getLast?_concat, Option.some_inj]
    constructor
    · intro h
      have hmem : RawPath.slash ∈ encode [c] := hlast ▸ List.mem_of_getLast? h
      simpa [eq_comm] using slash_mem_encode_iff.mp hmem
    · rintro rfl
      decide

end Text

/-! ## Components -/

namespace Component

theorem ofBytes_encode (cs : List Char) : ofBytes (encode cs) = ofSegment cs := by
  rw [ofBytes, dif_pos (by rw [decode_encode]), decode_encode]

theorem encode_decode_of_isText {bytes : Bytes} (h : (ofBytes bytes).isText = true) :
    encode (decode bytes) = bytes := by
  unfold ofBytes at h
  split at h
  · assumption
  · cases h

/-- A component read from a segment is told by its text, if it is one. -/
theorem ofText_text_ofBytes {bytes : Bytes} (h : Names RawPath.slash RawPath.dot bytes)
    (htext : (ofBytes bytes).isText = true) : ofText (ofBytes bytes).text = ofBytes bytes := by
  have hcode := encode_decode_of_isText htext
  have hplain : PlainSegment (decode bytes) := by
    refine ⟨fun hnil => h.ne_nil ?_, fun hcurrent => h.ne_dot ?_, fun hslash => h.no_slash ?_⟩
    · rw [← hcode, hnil, encode_eq_nil_iff]
    · rw [← hcode, encode_eq_dot_iff]
      exact hcurrent
    · rw [← hcode, slash_mem_encode_iff]
      exact hslash
  rw [ofBytes, dif_pos hcode, ofText_text_ofSegment hplain]

/-- What is read from a segment is written with the bytes of the segment, if it is a text. -/
theorem encode_text_ofBytes {bytes : Bytes} (htext : (ofBytes bytes).isText = true) :
    encode (ofBytes bytes).text.toList = bytes := by
  have hcode := encode_decode_of_isText htext
  rw [ofBytes, dif_pos hcode, text_ofSegment, hcode]

end Component

/-- A path has the same components in its bytes. -/
theorem Path.components_raw (p : Path) : p.raw.components = p.components := by
  have hnamed : ((split RawPath.slash (encode p.text.toList)).filter fun s => s ≠ [] ∧ s ≠ [RawPath.dot]).map
      Component.ofBytes =
      ((split '/' p.text.toList).filter fun s => s ≠ [] ∧ s ≠ ['.']).map Component.ofSegment := by
    rw [split_encode, List.filter_map, List.map_map]
    simp only [Function.comp_def, encode_eq_nil_iff, encode_eq_dot_iff, ne_eq, Component.ofBytes_encode]
  have hcurrent : (split RawPath.slash (encode p.text.toList)).head? = some [RawPath.dot] ↔
      (split '/' p.text.toList).head? = some ['.'] := by
    rw [split_encode, List.head?_map, Option.map_eq_some_iff]
    simp only [encode_eq_dot_iff, exists_eq_right]
  unfold RawPath.components components Component.listOf Path.raw
  simp only [hnamed, hcurrent, head?_encode_iff]

/-- An entry is joined to the bytes of a path as to the path. -/
theorem Path.join_raw (p : Path) (name : String) : p.raw.join name = (p.join ⟨name⟩).raw := by
  have hempty : (encode p.text.toList).isEmpty = p.text.isEmpty := by
    rw [Bool.eq_iff_iff, List.isEmpty_iff, encode_eq_nil_iff, String.isEmpty_iff, String.toList_eq_nil_iff]
  have hslash : ((encode p.text.toList).getLast? == some RawPath.slash) =
      (p.text.toList.getLast? == some '/') := by
    rw [Bool.eq_iff_iff, beq_iff_eq, beq_iff_eq, getLast?_encode_iff]
  unfold RawPath.join join isAbsolute raw
  simp only [hempty, hslash]
  split
  · rfl
  · split
    · rw [String.toList_append, encode_append]
    · rw [String.toList_append, String.toList_append, encode_append, encode_append, List.append_assoc,
        ← List.singleton_append (l := encode name.toList), ← encode_slash]
      rfl

namespace RawPath

variable {p : RawPath} {rest : List Component} {c : Component}

/-- A component of a path is told by its text, if it is one. -/
theorem ofText_text {directory : List Component} (h : p.components = directory ++ c :: rest)
    (htext : c.isText = true) : Component.ofText c.text = c := by
  rcases Component.listOf_cases h with ⟨-, rfl | rfl⟩ | ⟨s, hs, rfl⟩
  · rfl
  · rfl
  · exact Component.ofText_text_ofBytes hs htext

/-- An entry of a directory that is a component of some path and a text is joined as one step more. -/
theorem components_join_text {directory : RawPath} (h : p.components = directory.components ++ c :: rest)
    (htext : c.isText = true) : (directory.join c.text).components = directory.components ++ [c] := by
  rcases Component.listOf_cases h with ⟨hnil, hfirst⟩ | ⟨s, hs, rfl⟩
  · obtain ⟨bytes⟩ := directory
    obtain rfl : bytes = [] := Component.eq_nil_of_listOf hnil
    rcases hfirst with rfl | rfl <;> decide +kernel
  · have hname := Component.encode_text_ofBytes htext
    have hrelative : (Component.ofBytes s).text.toList.head? ≠ some '/' := by
      rw [Ne, ← head?_encode_iff, hname]
      exact fun hhead => hs.no_slash (List.mem_of_head? hhead)
    have hjoined : (directory.join (Component.ofBytes s).text).bytes =
        Component.joined slash directory.bytes s := by
      simp only [join, beq_iff_eq, hrelative, if_false, hname, Component.joined, Bool.or_eq_true,
        List.isEmpty_iff]
      split <;> rfl
    rw [components, hjoined]
    exact Component.listOf_joined hs _

end RawPath

end KeywordIndex
