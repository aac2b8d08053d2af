import KeywordIndex.Proofs.Query.Matching

namespace KeywordIndex.Query

open Text

/-! # Where a query stands in a name

The search walks along the name. For each character of the query it takes the next equal character, or a
later one that starts a word if the rest of the query still fits behind it. So it ends with places for the
whole query (`Placed`), and it counts exactly those of them at which a word starts
(`lands_of_wordStartsFrom`): a word start that is passed over would have left no room for the rest.
-/

/-- Whether a word starts at a place of the name: at its start, or behind a character that is not
alphanumeric. -/
def isWordStart (name : List Char) (place : Nat) : Bool :=
  place == 0 || name[place - 1]?.any fun before => !isAlphanumeric before

/-- Places of the name, each further on than the one before, that hold the characters of the query. -/
structure Placed (query name : List Char) (places : List Nat) : Prop where
  increasing : places.Pairwise (· < ·)
  holds : places.map (name[·]?) = query.map some

variable {c : Char} {query name done rest behind : List Char} {count : Nat}

/-! ## Steps of the search -/

/-- A word starts behind what was read exactly if the last character of it lets one start. -/
theorem isWordStart_length (done rest : List Char) :
    isWordStart (done ++ rest) done.length = startsWord done.getLast? := by
  cases done using List.reverseRecOn with
  | nil => rfl
  | append_singleton done before => simp [isWordStart, startsWord]

/-- The first occurrence of a character, with what stands before it. -/
theorem afterFirst?_eq_some (h : afterFirst? c rest = some behind) :
    ∃ skipped, rest = skipped ++ c :: behind := by
  induction rest with
  | nil => cases h
  | cons d rest ih =>
    rw [afterFirst?] at h
    split at h
    · next heq =>
      obtain rfl := Option.some.inj h
      exact ⟨[], by rw [heq, List.nil_append]⟩
    · obtain ⟨skipped, rfl⟩ := ih h
      exact ⟨d :: skipped, rfl⟩

/-- A word start that is taken stands behind what was skipped. -/
theorem afterWordStart?_eq_some (h : afterWordStart? c query done.getLast? rest = some behind) :
    ∃ skipped, rest = skipped ++ c :: behind ∧ startsWord (done ++ skipped).getLast? = true := by
  induction rest generalizing done with
  | nil => cases h
  | cons d rest ih =>
    rw [afterWordStart?] at h
    split at h
    · next hstart =>
      simp only [Bool.and_eq_true, decide_eq_true_eq] at hstart
      obtain ⟨⟨rfl, hstarts⟩, -⟩ := hstart
      obtain rfl := Option.some.inj h
      exact ⟨[], rfl, by rwa [List.append_nil]⟩
    · have hnext : afterWordStart? c query (done ++ [d]).getLast? rest = some behind := by
        rwa [List.getLast?_concat]
      obtain ⟨skipped, rfl, hstarts⟩ := ih hnext
      exact ⟨d :: skipped, rfl, by rwa [List.append_cons]⟩

/-- If no word start is taken, then behind each one of them the rest of the query does not fit. -/
theorem not_startsWord_of_afterWordStart?
    (h : afterWordStart? c query done.getLast? rest = none) {skipped : List Char}
    (hrest : rest = skipped ++ c :: behind) (hfits : query.Sublist behind) :
    startsWord (done ++ skipped).getLast? = false := by
  induction skipped generalizing done rest with
  | nil =>
    rw [hrest, List.nil_append, afterWordStart?] at h
    split at h
    · cases h
    · next hstart =>
      rw [List.append_nil]
      simpa [List.isSublist_iff_sublist.mpr hfits] using hstart
  | cons d skipped ih =>
    rw [hrest, List.cons_append, afterWordStart?] at h
    split at h
    · cases h
    · rw [List.append_cons]
      exact ih (by rwa [List.getLast?_concat]) rfl

/-! ## Places -/

/-- Behind `done` there are places for the query, and words start at `count` of them. -/
def Lands (query done rest : List Char) (count : Nat) : Prop :=
  ∃ places, Placed query (done ++ rest) places ∧ (∀ place ∈ places, done.length ≤ place) ∧
    places.countP (isWordStart (done ++ rest)) = count

/-- A character is placed in front of the places of the characters after it. -/
theorem Lands.cons {skipped : List Char} (h : Lands query (done ++ skipped ++ [c]) behind count) :
    Lands (c :: query) done (skipped ++ c :: behind)
      (count + if startsWord (done ++ skipped).getLast? then 1 else 0) := by
  obtain ⟨places, ⟨hincreasing, hholds⟩, hbehind, hcount⟩ := h
  have hwhole : done ++ (skipped ++ c :: behind) = done ++ skipped ++ c :: behind := by simp
  rw [← List.append_cons] at hholds hcount
  have hplace : (done ++ skipped ++ c :: behind)[(done ++ skipped).length]? = some c := by
    simp
  have hlater : ∀ place ∈ places, (done ++ skipped).length < place := by
    intro place hmem
    have := hbehind place hmem
    rw [List.length_append, List.length_singleton] at this
    omega
  refine ⟨(done ++ skipped).length :: places, ⟨?_, ?_⟩, ?_, ?_⟩
  · exact List.pairwise_cons.mpr ⟨hlater, hincreasing⟩
  · rw [hwhole, List.map_cons, List.map_cons, hplace, hholds]
  · intro place hmem
    rcases List.mem_cons.mp hmem with rfl | hmem
    · simp
    · have := hlater place hmem
      rw [List.length_append] at this
      omega
  · rw [hwhole, List.countP_cons, hcount, isWordStart_length]

/-- When `done` was read and the search goes on in `rest`, it ends with places in `rest` for what is left of
the query, and with the number of word starts among them. -/
theorem lands_of_wordStartsFrom (h : wordStartsFrom done.getLast? rest query = some count) :
    Lands query done rest count := by
  induction query generalizing done rest count with
  | nil =>
    obtain rfl := Option.some.inj h
    exact ⟨[], ⟨List.Pairwise.nil, rfl⟩, by simp, rfl⟩
  | cons c query ih =>
    have hlast (skipped : List Char) : (done ++ skipped ++ [c]).getLast? = some c :=
      List.getLast?_concat
    rw [wordStartsFrom] at h
    cases hfirst : afterFirst? c rest with
    | none => simp [hfirst] at h
    | some behind =>
      cases hstart : afterWordStart? c query done.getLast? rest with
      | some later =>
        simp only [hfirst, hstart, Option.map_eq_some_iff] at h
        obtain ⟨more, hmore, rfl⟩ := h
        obtain ⟨skipped, rfl, hstarts⟩ := afterWordStart?_eq_some hstart
        have hlands := (ih (by rwa [hlast skipped])).cons
        rwa [if_pos hstarts] at hlands
      | none =>
        simp only [hfirst, hstart] at h
        obtain ⟨skipped, rfl⟩ := afterFirst?_eq_some hfirst
        -- the rest of the query fits behind the first `c`, so `c` was not passed over as a word start
        have hfits : query.Sublist behind := wordStartsFrom_isSome_iff.mp (by rw [h]; rfl)
        have hstarts := not_startsWord_of_afterWordStart? hstart rfl hfits
        have hlands := (ih (by rwa [hlast skipped])).cons
        rwa [if_neg (Bool.eq_false_iff.mp hstarts)] at hlands

/-- A name has a score exactly if the query is blank or its characters appear in the name in order, in any
case. The search for word starts finds every match too, and what it counts are the word starts among
places of the name, further and further on, that hold the characters of the query. -/
theorem matching_complete (query name : List Char) :
    ((score? query name).isSome = true ↔
      lower (trim query) = [] ∨ (lower (trim query)).Sublist (lower name)) ∧
    ((wordStarts? query name).isSome = true ↔ query.Sublist name) ∧
    ∀ count, wordStarts? query name = some count →
      ∃ places, Placed query name places ∧ places.countP (isWordStart name) = count := by
  refine ⟨?_, wordStartsFrom_isSome_iff, ?_⟩
  · rw [score?_isSome_iff, Matches, iff_or_self]
    intro hempty
    rw [hempty]
    exact List.nil_sublist _
  · intro count hcount
    have hlands : Lands query [] name count := lands_of_wordStartsFrom hcount
    obtain ⟨places, hplaced, -, hstarts⟩ := hlands
    exact ⟨places, hplaced, hstarts⟩

/-- The word start `a` behind the underscore would leave no room for the `b`. -/
theorem matching_complete_stranded :
    wordStarts? "ab".toList "xa b_a".toList = some 1 ∧
      ∃ places, Placed "ab".toList "xa b_a".toList places ∧
        places.countP (isWordStart "xa b_a".toList) = 1 := by
  have hcount : wordStarts? "ab".toList "xa b_a".toList = some 1 := by decide +kernel
  exact ⟨hcount, (matching_complete "ab".toList "xa b_a".toList).2.2 1 hcount⟩

end KeywordIndex.Query
