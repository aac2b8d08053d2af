import KeywordIndex.Libdoc.Marker
import KeywordIndex.Proofs.Text.Cutting
import KeywordIndex.Proofs.Text.Slices

namespace KeywordIndex.Libdoc

open Text

/-! # The search for markers

The markers that are found stand where they say, with their names (`markedAt_of_mem`), and one is passed over
only if it begins within another one (`found_or_within`). The search goes by byte offsets, and these never fall
inside a character (`scan_eq`).
-/

variable {offset : Nat} {cs before named written rest : List Char} {marker : Marker}

/-! ## One round -/

theorem takeWhile_written (h : '"' ∉ written) (rest : List Char) :
    (written ++ '"' :: rest).takeWhile (· ≠ '"') = written ∧
      (written ++ '"' :: rest).dropWhile (· ≠ '"') = '"' :: rest := by
  rw [List.takeWhile_append_of_pos (forall_ne_of_notMem h), List.dropWhile_append_of_pos (forall_ne_of_notMem h)]
  simp

theorem dropWhile_unmarked (h : '"' ∉ named) : named.dropWhile (· ≠ '"') = [] :=
  List.dropWhile_eq_nil_iff.mpr (forall_ne_of_notMem h)

theorem markersFrom_none (h : cutAt? markerLead cs = none) : markersFrom offset cs = [] := by
  rw [markersFrom]
  split
  · rfl
  · next heq => simp [h] at heq

/-- The search is over at a marker whose value has no end. -/
theorem markersFrom_unclosed (h : cutAt? markerLead cs = some (before, named)) (hnamed : '"' ∉ named) :
    markersFrom offset cs = [] := by
  rw [markersFrom]
  split
  · rfl
  · next heq =>
    obtain ⟨rfl, rfl⟩ := Prod.mk.inj (Option.some.inj (h.symm.trans heq))
    split
    · rfl
    · next hrest => cases hrest.symm.trans (dropWhile_unmarked hnamed)

/-- The search goes on where the value of a marker ends. -/
theorem markersFrom_found (h : cutAt? markerLead cs = some (before, written ++ '"' :: rest))
    (hwritten : '"' ∉ written) :
    markersFrom offset cs = ⟨offset + byteLength before, writtenName written⟩ ::
      markersFrom (offset + byteLength before + byteLength markerLead + byteLength written) ('"' :: rest) := by
  obtain ⟨htake, hdrop⟩ := takeWhile_written hwritten rest
  rw [markersFrom]
  split
  · next heq => simp [h] at heq
  · next heq =>
    obtain ⟨rfl, rfl⟩ := Prod.mk.inj (Option.some.inj (h.symm.trans heq))
    split
    · next hrest => cases hdrop.symm.trans hrest
    · next hrest =>
      obtain ⟨rfl, rfl⟩ := List.cons.inj (hdrop.symm.trans hrest)
      simp only [htake]

/-- The search finds no marker, or one whose value has no end, or one behind whose value it goes on. -/
theorem search_induction {motive : Nat → List Char → Prop}
    (none : ∀ offset cs, cutAt? markerLead cs = none → motive offset cs)
    (unclosed : ∀ offset cs before named, cutAt? markerLead cs = some (before, named) → '"' ∉ named →
      motive offset cs)
    (found : ∀ offset cs before written rest, cutAt? markerLead cs = some (before, written ++ '"' :: rest) →
      '"' ∉ written →
      motive (offset + byteLength before + byteLength markerLead + byteLength written) ('"' :: rest) →
      motive offset cs)
    (offset : Nat) (cs : List Char) : motive offset cs := by
  induction hlength : cs.length using Nat.strong_induction_on generalizing offset cs with
  | _ length ih =>
    subst hlength
    cases hcut : cutAt? markerLead cs with
    | none => exact none offset cs hcut
    | some parts =>
      obtain ⟨before, named⟩ := parts
      by_cases hmark : '"' ∈ named
      · obtain ⟨written, rest, rfl, hwritten⟩ := List.eq_append_cons_of_mem hmark
        refine found offset cs before written rest hcut hwritten (ih _ ?_ _ _ rfl)
        have hlead : 0 < markerLead.length := by decide
        rw [eq_of_cutAt? hcut]
        simp only [List.length_append, List.length_cons]
        omega
      · exact unclosed offset cs before named hcut hmark

/-! ## What is found -/

/-- At the byte offset stands a marker with its value. -/
def MarkedAt (document : List Char) (offset : Nat) (written : List Char) : Prop :=
  ∃ before rest, document = before ++ (markerLead ++ (written ++ '"' :: rest)) ∧ byteLength before = offset ∧
    '"' ∉ written

theorem MarkedAt.le {document : List Char} (h : MarkedAt document offset written) :
    offset ≤ byteLength document := by
  obtain ⟨before, rest, rfl, rfl, -⟩ := h
  rw [byteLength_append]
  exact Nat.le_add_right _ _

/-- A marker that is found stands where it says, with its name. -/
theorem markedAt_of_mem (h : marker ∈ markersFrom offset cs) :
    ∃ start written, MarkedAt cs start written ∧ marker.offset = offset + start ∧
      marker.name = writtenName written := by
  induction offset, cs using search_induction with
  | none offset cs hcut => simp [markersFrom_none hcut] at h
  | unclosed offset cs before named hcut hnamed => simp [markersFrom_unclosed hcut hnamed] at h
  | found offset cs before written rest hcut hwritten ih =>
    have hcs := eq_of_cutAt? hcut
    rw [List.append_assoc] at hcs
    rw [markersFrom_found hcut hwritten] at h
    rcases List.mem_cons.mp h with rfl | h
    · exact ⟨byteLength before, written, ⟨before, rest, hcs, rfl, hwritten⟩, rfl, rfl⟩
    · obtain ⟨start, later, ⟨front, back, hrest, hstart, hlater⟩, hoffset, hname⟩ := ih h
      refine ⟨_, later, ⟨before ++ (markerLead ++ (written ++ front)), back, ?_, rfl, hlater⟩, ?_, hname⟩
      · rw [hcs, hrest]
        simp
      · simp only [byteLength_append]
        omega

/-! ## What is not passed over -/

/-- A text is cut at the first place where the other one occurs. -/
theorem cutAt?_le {needle front : List Char}
    (h : cutAt? needle (front ++ (needle ++ rest)) = some (before, named)) :
    before.length ≤ front.length := by
  induction front generalizing before named with
  | nil =>
    have hafter : after? needle (needle ++ rest) = some rest := after?_eq_some_iff.mpr rfl
    cases htext : needle ++ rest with
    | nil =>
      rw [List.nil_append, htext, cutAt?] at h
      obtain ⟨_, -, heq⟩ := Option.map_eq_some_iff.mp h
      exact (Prod.mk.inj heq).1 ▸ Nat.le_refl 0
    | cons c cs =>
      rw [htext] at hafter
      rw [List.nil_append, htext, cutAt?, hafter] at h
      exact (Prod.mk.inj (Option.some.inj h)).1 ▸ Nat.le_refl 0
  | cons c front ih =>
    rw [List.cons_append, cutAt?] at h
    split at h
    · exact (Prod.mk.inj (Option.some.inj h)).1 ▸ Nat.zero_le _
    · obtain ⟨⟨later, back⟩, hcut, heq⟩ := Option.map_eq_some_iff.mp h
      rw [← (Prod.mk.inj heq).1]
      exact Nat.succ_le_succ (ih hcut)

/-- A marker begins within another one, which comes before it and whose value ends behind its begin. -/
def BeginsWithin (cs before : List Char) : Prop :=
  ∃ front written rest, cs = front ++ (markerLead ++ (written ++ '"' :: rest)) ∧ '"' ∉ written ∧
    front.length < before.length ∧ before.length < (front ++ (markerLead ++ written)).length

theorem BeginsWithin.prepend {ahead : List Char} (h : BeginsWithin ahead before) (passed : List Char) :
    BeginsWithin (passed ++ ahead) (passed ++ before) := by
  obtain ⟨front, written, rest, rfl, hwritten, hbegin, hend⟩ := h
  refine ⟨passed ++ front, written, rest, by simp, hwritten, ?_, ?_⟩
  · simpa using hbegin
  · simp only [List.length_append] at hend ⊢
    omega

/-- What follows a marker is part of what follows the first one. -/
theorem suffix_of_cutAt? {front later : List Char} (hcs : cs = before ++ (markerLead ++ named))
    (hcut : cutAt? markerLead cs = some (front, later)) : named <:+ later := by
  have hle := cutAt?_le (hcs ▸ hcut)
  have hsplit := eq_of_cutAt? hcut
  rw [List.append_assoc] at hsplit
  have hlength := congrArg List.length (hcs.symm.trans hsplit)
  simp only [List.length_append] at hlength
  have hthis : named <:+ cs := ⟨before ++ markerLead, by rw [hcs, List.append_assoc]⟩
  have hfirst : later <:+ cs := ⟨front ++ markerLead, by rw [hsplit, List.append_assoc]⟩
  exact List.suffix_of_suffix_length_le hthis hfirst (by omega)

/-- A marker is the first one, or begins within it, or is in the text where the search goes on. -/
theorem cases_of_cutAt? {front : List Char} (hcs : cs = before ++ (markerLead ++ named))
    (hcut : cutAt? markerLead cs = some (front, written ++ '"' :: rest)) (hwritten : '"' ∉ written) :
    front = before ∨ BeginsWithin cs before ∨
      ∃ more, before = front ++ (markerLead ++ written) ++ more ∧
        '"' :: rest = more ++ (markerLead ++ named) := by
  have hle := cutAt?_le (hcs ▸ hcut)
  have hsplit := eq_of_cutAt? hcut
  rw [List.append_assoc] at hsplit
  rcases hle.eq_or_lt with hsame | hlater
  · exact Or.inl (List.append_inj (hsplit.symm.trans hcs) hsame).1
  · by_cases hwithin : before.length < (front ++ (markerLead ++ written)).length
    · exact Or.inr (Or.inl ⟨front, written, rest, hsplit, hwritten, hlater, hwithin⟩)
    · have hrest : cs = (front ++ (markerLead ++ written)) ++ '"' :: rest := by
        rw [hsplit]
        simp
      obtain ⟨more, rfl⟩ : front ++ (markerLead ++ written) <+: before :=
        List.prefix_of_prefix_length_le ⟨_, hrest.symm⟩ ⟨_, hcs.symm⟩ (not_lt.mp hwithin)
      rw [hrest, List.append_assoc _ more] at hcs
      exact Or.inr (Or.inr ⟨more, rfl, List.append_cancel_left hcs⟩)

/-- A marker with a value is found unless it begins within another one. -/
theorem found_or_within (hcs : cs = before ++ (markerLead ++ named)) (hnamed : '"' ∈ named) :
    (∃ marker ∈ markersFrom offset cs, marker.offset = offset + byteLength before) ∨
      BeginsWithin cs before := by
  induction offset, cs using search_induction generalizing before with
  | none offset cs hcut =>
    refine absurd ?_ (cutAt?_eq_none_iff.mp hcut)
    rw [hcs, ← List.append_assoc]
    exact List.infix_append before markerLead named
  | unclosed offset cs front later hcut hlater =>
    exact absurd ((suffix_of_cutAt? hcs hcut).subset hnamed) hlater
  | found offset cs front written rest hcut hwritten ih =>
    rw [markersFrom_found hcut hwritten]
    rcases cases_of_cutAt? hcs hcut hwritten with rfl | hwithin | ⟨more, rfl, hmore⟩
    · exact Or.inl ⟨_, List.mem_cons_self, rfl⟩
    · exact Or.inr hwithin
    · rcases ih hmore with ⟨marker, hmarker, hoffset⟩ | hwithin
      · refine Or.inl ⟨marker, List.mem_cons_of_mem _ hmarker, ?_⟩
        simp only [byteLength_append] at hoffset ⊢
        omega
      · have hsplit : cs = front ++ (markerLead ++ written) ++ '"' :: rest := by
          rw [eq_of_cutAt? hcut]
          simp
        rw [hsplit]
        exact Or.inr (hwithin.prepend _)

/-! ## The search by offsets -/

/-- The search as it goes by byte offsets, in at most some rounds: it looks for a marker behind the offset
where it resumes, and slices out its value. There is no result if a slice would begin or end inside a
character, or if the search is not over. -/
def scan (document : List Char) : (rounds : Nat) → (resume : Nat) → Option (List Marker)
  | 0, _ => none
  | rounds + 1, resume => do
    let (_, ahead) ← cutBytes? resume document
    match cutAt? markerLead ahead with
    | none => some []
    | some (before, _) =>
      let start := resume + byteLength before
      let valueStart := start + byteLength markerLead
      let (_, named) ← cutBytes? valueStart document
      match named.dropWhile (· ≠ '"') with
      | [] => some []
      | _ :: _ =>
        let valueEnd := valueStart + byteLength (named.takeWhile (· ≠ '"'))
        let written ← slice? valueStart valueEnd document
        let found ← scan document rounds valueEnd
        some (⟨start, writtenName written⟩ :: found)

/-- The search comes to its end without slicing inside a character. -/
theorem scan_eq {document : List Char} {rounds : Nat} (hdocument : document = before ++ cs)
    (hrounds : cs.length < rounds) :
    scan document rounds (byteLength before) = some (markersFrom (byteLength before) cs) := by
  induction rounds generalizing before cs with
  | zero => exact absurd hrounds (Nat.not_lt_zero _)
  | succ rounds ih =>
    have hahead : cutBytes? (byteLength before) document = some (before, cs) :=
      cutBytes?_eq_some_iff.mpr ⟨hdocument, rfl⟩
    rw [scan, hahead]
    cases hcut : cutAt? markerLead cs with
    | none => simp only [hcut, markersFrom_none hcut, Option.bind_eq_bind, Option.bind_some]
    | some parts =>
      obtain ⟨front, named⟩ := parts
      have hcs := eq_of_cutAt? hcut
      have hnamed : cutBytes? (byteLength before + byteLength front + byteLength markerLead) document =
          some (before ++ (front ++ markerLead), named) :=
        cutBytes?_eq_some_iff.mpr ⟨by rw [hdocument, hcs]; simp, by simp [Nat.add_assoc]⟩
      by_cases hmark : '"' ∈ named
      · obtain ⟨written, rest, rfl, hwritten⟩ := List.eq_append_cons_of_mem hmark
        obtain ⟨htake, hdrop⟩ := takeWhile_written hwritten rest
        have hsplit : document = (before ++ (front ++ (markerLead ++ written))) ++ '"' :: rest := by
          rw [hdocument, hcs]
          simp
        have hend : byteLength (before ++ (front ++ (markerLead ++ written))) =
            byteLength before + byteLength front + byteLength markerLead + byteLength written := by
          simp [Nat.add_assoc]
        have hvalue : slice? (byteLength before + byteLength front + byteLength markerLead)
            (byteLength before + byteLength front + byteLength markerLead + byteLength written) document =
              some written :=
          slice?_eq_some_iff.mpr ⟨before ++ (front ++ markerLead), '"' :: rest, by rw [hsplit]; simp,
            by simp [Nat.add_assoc], by simp [Nat.add_assoc]⟩
        have hlead : 0 < markerLead.length := by decide
        have hshorter : ('"' :: rest).length < rounds := by
          rw [hcs] at hrounds
          simp only [List.length_append, List.length_cons] at hrounds ⊢
          omega
        have hmore := ih hsplit hshorter
        rw [hend] at hmore
        simp only [hcut, hnamed, htake, hdrop, hvalue, hmore, Option.bind_eq_bind, Option.bind_some,
          markersFrom_found hcut hwritten]
      · simp only [hcut, hnamed, dropWhile_unmarked hmark, markersFrom_unclosed hcut hmark, Option.bind_eq_bind,
          Option.bind_some]

end KeywordIndex.Libdoc
