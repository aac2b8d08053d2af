import KeywordIndex.Proofs.Query.Ambiguity
import KeywordIndex.Proofs.Query.Scope
import KeywordIndex.Proofs.Text.Cutting
import KeywordIndex.Proofs.Text.Slices

namespace KeywordIndex.Query

open Text

/-! # What a suggestion replaces

A suggestion replaces what was typed from some byte on, and what is before it stays as it is: nothing, a
step word or a qualifier (`Kept`). The offset is summed up from the sizes of the parts that were cut off on
the way: a step word, blanks, a qualifier as it was typed and its dot. Since each of them is a part of the
text, no offset falls inside a character (`replacements_sound`).
-/

/-! ## Step words -/

/-- Nothing, or a step word, in any case, and its space. -/
def IsStep (lead : List Char) : Prop :=
  lead = [] ∨
    ∃ word ∈ stepWords, ∃ typed, typed.map asciiLower = word.toList ∧ lead = typed ++ [' ']

variable {typed text rest lead : List Char} {word : String}

theorem utf8Size_asciiLower (c : Char) : (asciiLower c).utf8Size = c.utf8Size := by
  rcases asciiLower_cases c with hsame | ⟨n, hn, rfl, hfolded⟩
  · rw [hsame]
  · have hall : ∀ n ∈ List.range' 65 26, (Char.ofNat (n + 32)).utf8Size = (Char.ofNat n).utf8Size := by
      decide
    rw [hfolded, hall n hn]

theorem byteLength_map_asciiLower (cs : List Char) : byteLength (cs.map asciiLower) = byteLength cs := by
  induction cs with
  | nil => rfl
  | cons c cs ih => rw [List.map_cons, byteLength, byteLength, utf8Size_asciiLower, ih]

theorem afterStepWord?_eq_some_iff {word : List Char} : afterStepWord? word text = some rest ↔
    ∃ typed, typed.map asciiLower = word ∧ text = typed ++ ' ' :: rest := by
  induction word generalizing text with
  | nil =>
    simp only [List.map_eq_nil_iff, exists_eq_left, List.nil_append]
    cases text with
    | nil => simp [afterStepWord?]
    | cons d text =>
      by_cases hspace : d = ' '
      · simp [afterStepWord?, hspace]
      · simp [afterStepWord?, hspace]
  | cons c word ih =>
    cases text with
    | nil => simp [afterStepWord?]
    | cons d text =>
      rw [afterStepWord?]
      split
      · next hsame =>
        rw [ih]
        constructor
        · rintro ⟨typed, hword, rfl⟩
          exact ⟨d :: typed, by rw [List.map_cons, hsame, hword], rfl⟩
        · rintro ⟨typed, hword, htext⟩
          cases typed with
          | nil => cases hword
          | cons e typed =>
            obtain ⟨-, rfl⟩ := List.cons.inj htext
            exact ⟨typed, (List.cons.inj hword).2, rfl⟩
      · next hother =>
        simp only [reduceCtorEq, false_iff]
        rintro ⟨typed, hword, htext⟩
        cases typed with
        | nil => cases hword
        | cons e typed =>
          obtain ⟨rfl, -⟩ := List.cons.inj htext
          exact hother (List.cons.inj hword).1

/-- Step words are of small letters of one byte each. -/
theorem stepWord_letters : ∀ word ∈ stepWords,
    byteLength word.toList = word.length ∧ word.toList.map asciiLower = word.toList := by decide

/-- In any case a step word has the same size. -/
theorem byteLength_of_stepWord (hword : word ∈ stepWords) (h : typed.map asciiLower = word.toList) :
    byteLength typed = word.length := by
  rw [← byteLength_map_asciiLower, h]
  exact (stepWord_letters word hword).1

/-- A reading begins behind a step word or at the start. -/
theorem exists_step_of_mem_variants {v : Variant} (h : v ∈ variants typed) :
    ∃ lead, IsStep lead ∧ typed = lead ++ v.text ∧ byteLength lead = v.offset := by
  rcases List.mem_cons.mp h with rfl | h
  · exact ⟨[], .inl rfl, rfl, rfl⟩
  · rw [Option.mem_toList] at h
    obtain ⟨word, hword, hfound⟩ := List.exists_of_findSome?_eq_some h
    obtain ⟨rest, hrest, rfl⟩ := Option.map_eq_some_iff.mp hfound
    obtain ⟨front, hfront, rfl⟩ := afterStepWord?_eq_some_iff.mp hrest
    refine ⟨front ++ [' '], .inr ⟨word, hword, front, hfront, rfl⟩, by simp, ?_⟩
    rw [byteLength_append, byteLength_of_stepWord hword hfront]
    rfl

/-! ## Scopes -/

/-- What stands before a query: blanks, and the qualifier with its dot if there is one. -/
inductive Leads : Option (List Char) → List Char → Prop where
  | bare (blanks : List Char) (hblank : ∀ c ∈ blanks, isBlank c = true) : Leads none blanks
  | qualified (blanks qualifier : List Char) (hblank : ∀ c ∈ blanks, isBlank c = true) :
      Leads (some qualifier) (blanks ++ (qualifier ++ ['.']))

/-- The query of the scope is a part of the text, begins at its offset, and has blanks and the qualifier
before it. -/
structure Located (typed : List Char) (scope : Scope) : Prop where
  placed : ∃ before rest, typed = before ++ (scope.query ++ rest) ∧ byteLength before = scope.queryStart ∧
    Leads scope.qualifier before
  qualified : scope.kind.isQualified = scope.qualifier.isSome

/-- The offset of a text without the blanks before it. -/
def textStart (typed : List Char) : Nat :=
  if (trim typed).isEmpty then 0 else byteLength typed - byteLength (trimStart typed)

theorem exists_blanks (typed : List Char) : ∃ blanks rest, typed = blanks ++ (trim typed ++ rest) ∧
    (∀ c ∈ blanks, isBlank c = true) ∧ byteLength blanks = textStart typed := by
  by_cases hempty : trim typed = []
  · exact ⟨[], typed, by simp [hempty], by simp, by simp [textStart, hempty, byteLength]⟩
  · obtain ⟨rest, hrest⟩ := trimEnd_isPrefix (trimStart typed)
    have hsplit : typed.takeWhile isBlank ++ trimStart typed = typed := List.takeWhile_append_dropWhile
    refine ⟨typed.takeWhile isBlank, rest, ?_, fun c hc => List.mem_takeWhile_imp hc, ?_⟩
    · rw [trim, hrest, hsplit]
    · have hsize := congrArg byteLength hsplit
      rw [byteLength_append] at hsize
      rw [textStart, if_neg (by simpa using hempty)]
      omega

theorem located_whole {kind : ScopeKind} (hkind : kind.isQualified = false) (candidates : Candidates) :
    Located typed ⟨kind, trim typed, textStart typed, none, candidates⟩ := by
  obtain ⟨blanks, rest, htyped, hblank, hsize⟩ := exists_blanks typed
  exact ⟨⟨blanks, rest, htyped, hsize, .bare blanks hblank⟩, hkind⟩

theorem located_qualified {kind : ScopeKind} (hkind : kind.isQualified = true) (cut : Qualified)
    (htext : trim typed = cut.typed ++ '.' :: cut.rest) (candidates : Candidates) :
    Located typed
      ⟨kind, cut.rest, textStart typed + byteLength cut.typed + 1, some cut.typed, candidates⟩ := by
  obtain ⟨blanks, rest, htyped, hblank, hsize⟩ := exists_blanks typed
  refine ⟨⟨blanks ++ (cut.typed ++ ['.']), rest, ?_, ?_, .qualified blanks cut.typed hblank⟩, hkind⟩
  · rw [htext] at htyped
    simpa using htyped
  · rw [byteLength_append, byteLength_append, hsize, Nat.add_assoc]
    rfl

theorem located_detectScope (cx : ScopeContext) (typed : List Char) :
    Located typed (detectScope cx typed) := by
  simp only [detectScope]
  -- the cases follow the rules in their order
  split
  · exact located_whole rfl _
  · split
    · exact located_whole rfl _
    · split
      · next rest htext => exact located_qualified rfl ⟨[], rest⟩ htext _
      · split
        · next cut hcut => exact located_qualified rfl cut (cutQualifier?_append hcut) _
        · split
          · next q hq =>
            obtain ⟨⟨key, name, displayed, -, hcut, -⟩, -⟩ := fileQualifier?_eq_some hq
            exact located_qualified rfl q.text (cutQualifier?_append hcut) _
          · exact located_whole rfl _

/-! ## Slices -/

/-- The reading behind a step word. What is typed is cut at bytes, and there is no answer if that fails. -/
def slicedStep? (word : String) (typed : List Char) : Option (Option Variant) :=
  match slice? 0 (word.length + 1) typed with
  | none => some none
  | some head =>
    if head.getLast? = some ' ' then do
      let name ← slice? 0 word.length head
      if asciiEqual (String.ofList name) word then do
        let rest ← slice? (byteLength head) (byteLength typed) typed
        some (some ⟨byteLength head, rest⟩)
      else some none
    else some none

/-- The readings of what is typed, cut at bytes. -/
def slicedVariants? (typed : List Char) : Option (List Variant) := do
  let stripped ← stepWords.findSomeM? fun word => slicedStep? word typed
  some (⟨0, typed⟩ :: stripped.toList)

/-- The byte offset behind a name at the start of a text; `offset` bytes were read before. -/
def nameStop? (offset : Nat) : (name text : List Char) → Option Nat
  | [], _ => some offset
  | _ :: _, [] => none
  | c :: name, d :: text =>
    if lowerChar d = lowerChar c then nameStop? (offset + d.utf8Size) name text else none

/-- Cuts a qualifier and its dot from a text at bytes. There is no answer if that fails. -/
def slicedQualifier? (name : String) (text : List Char) : Option (Option Qualified) :=
  if name.isEmpty then some none
  else
    match nameStop? 0 name.toList text with
    | none => some none
    | some stop => do
      match ← slice? stop (byteLength text) text with
      | '.' :: rest => do
        let typed ← slice? 0 (byteLength text - byteLength rest - 1) text
        some (some ⟨typed, rest⟩)
      | _ => some none

theorem nameStop?_eq (offset : Nat) (name text : List Char) :
    nameStop? offset name text = (cutName? name text).map fun cut => offset + byteLength cut.1 := by
  induction name generalizing offset text with
  | nil => rfl
  | cons c name ih =>
    cases text with
    | nil => rfl
    | cons d text =>
      rw [nameStop?, cutName?]
      split
      · rw [ih]
        cases cutName? name text with
        | none => rfl
        | some cut => simp [byteLength, Nat.add_assoc]
      · rfl

theorem slicedQualifier?_eq (name : String) (text : List Char) :
    slicedQualifier? name text = some (cutQualifier? name text) := by
  unfold slicedQualifier? cutQualifier?
  split
  · rfl
  · rw [nameStop?_eq]
    cases hcut : cutName? name.toList text with
    | none => rfl
    | some cut =>
      obtain ⟨front, back⟩ := cut
      obtain ⟨-, rfl⟩ := cutName?_eq_some_iff.mp hcut
      simp only [Option.map_some, Nat.zero_add, slice?_back]
      match back with
      | [] => rfl
      | c :: rest =>
        by_cases hdot : c = '.'
        · subst hdot
          have hsize : byteLength (front ++ '.' :: rest) - byteLength rest - 1 = byteLength front := by
            have hdot : '.'.utf8Size = 1 := rfl
            rw [byteLength_append, byteLength, hdot]
            omega
          simp only [Option.bind_eq_bind, Option.bind_some]
          rw [hsize, slice?_front]
          rfl
        · simp [hdot]

/-- A step word and its space at the start of a text are its first slice. -/
theorem slice?_step (hword : word ∈ stepWords) (htyped : typed.map asciiLower = word.toList)
    (rest : List Char) : slice? 0 (word.length + 1) (typed ++ ' ' :: rest) = some (typed ++ [' ']) := by
  have hsize : byteLength (typed ++ [' ']) = word.length + 1 := by
    rw [byteLength_append, byteLength_of_stepWord hword htyped]
    rfl
  rw [← hsize, List.append_cons typed ' ' rest]
  exact slice?_front _ rest

theorem slicedStep?_eq (hword : word ∈ stepWords) (typed : List Char) : slicedStep? word typed =
    some ((afterStepWord? word.toList typed).map fun rest => ⟨word.length + 1, rest⟩) := by
  obtain ⟨hletters, hsmall⟩ := stepWord_letters word hword
  unfold slicedStep?
  cases hafter : afterStepWord? word.toList typed with
  | some rest =>
    obtain ⟨name, hname, rfl⟩ := afterStepWord?_eq_some_iff.mp hafter
    have hsize := byteLength_of_stepWord hword hname
    have hequal : asciiEqual (String.ofList name) word = true := by
      rw [asciiEqual_iff, String.toList_ofList, hname, hsmall]
    have hback := slice?_back (name ++ [' ']) rest
    rw [← List.append_cons] at hback
    rw [slice?_step hword hname, ← hsize]
    simp only [List.getLast?_concat, if_true, slice?_front, hequal, hback, Option.bind_eq_bind,
      Option.bind_some, Option.map_some]
    rw [byteLength_append]
    rfl
  | none =>
    cases hslice : slice? 0 (word.length + 1) typed with
    | none => rfl
    | some head =>
      obtain ⟨before, rest, rfl, hbefore, hsize⟩ := slice?_eq_some_iff.mp hslice
      obtain rfl := eq_nil_of_byteLength hbefore
      by_cases hlast : head.getLast? = some ' '
      · obtain ⟨name, rfl⟩ := List.getLast?_eq_some_iff.mp hlast
        have hname : byteLength name = word.length := by
          have hspace : byteLength [' '] = 1 := rfl
          rw [byteLength_append, hspace, byteLength] at hsize
          omega
        have hother : asciiEqual (String.ofList name) word = false := by
          rw [Bool.eq_false_iff, Ne, asciiEqual_iff, String.toList_ofList, hsmall]
          intro hequal
          have hfound : afterStepWord? word.toList ([] ++ (name ++ [' '] ++ rest)) = some rest :=
            afterStepWord?_eq_some_iff.mpr ⟨name, hequal, by simp⟩
          rw [hfound] at hafter
          cases hafter
        have hslice : slice? 0 word.length (name ++ [' ']) = some name := by
          rw [← hname]
          exact slice?_front name [' ']
        simp [hslice, hother]
      · simp [hlast]

theorem findSomeM?_slicedStep? {words : List String} (hwords : ∀ word ∈ words, word ∈ stepWords)
    (typed : List Char) : words.findSomeM? (fun word => slicedStep? word typed) =
      some (words.findSome? fun word =>
        (afterStepWord? word.toList typed).map fun rest => ⟨word.length + 1, rest⟩) := by
  induction words with
  | nil => rfl
  | cons word words ih =>
    obtain ⟨hword, hrest⟩ := List.forall_mem_cons.mp hwords
    rw [List.findSomeM?, slicedStep?_eq hword, List.findSome?_cons]
    cases afterStepWord? word.toList typed with
    | none => exact ih hrest
    | some rest => rfl

theorem slicedVariants?_eq (typed : List Char) : slicedVariants? typed = some (variants typed) := by
  rw [slicedVariants?, findSomeM?_slicedStep? fun word hword => hword]
  rfl

/-! ## Suggestions -/

section Suggesting

variable {index : Index} {options : QueryOptions} {path : Option Path} {s : Suggestion}

/-- The suggestion is of a keyword whose name one record alone defines among those compared, and what was
typed has the qualifier of records before it, which is not to be removed. -/
structure KeepsQualifier (index : Index) (options : QueryOptions) (path : Option Path) (text : List Char)
    (s : Suggestion) (qualifier : List Char) : Prop where
  kind : (detectScope (contextOf index options path) text).kind = .fileQualified
  qualifier : (detectScope (contextOf index options path) text).qualifier = some qualifier
  dotted : options.removeDotNotation = false
  keyword : ∃ f ∈ index.files, ∃ k ∈ f.keywords, s.keyword = some k.id ∧
    let current := (contextOf index options path).current
    let candidates := compared options path text index
    (owners index current candidates k.name).length ≤ 1 ∧
      (index.Consistent → ¬ Ambiguous index current candidates k.name)

/-- What stays of the typed text before a suggestion: nothing or a step word, or either of them with the
qualifier of the suggestion, the blanks before it and its dot. -/
inductive Kept (index : Index) (options : QueryOptions) (path : Option Path) (typed : List Char)
    (s : Suggestion) : List Char → Prop where
  | step (lead : List Char) (hlead : IsStep lead) : Kept index options path typed s lead
  | qualified (lead blanks qualifier text : List Char) (hlead : IsStep lead)
      (htyped : typed = lead ++ text) (hblank : ∀ c ∈ blanks, isBlank c = true)
      (hkeeps : KeepsQualifier index options path text s qualifier) :
      Kept index options path typed s (lead ++ (blanks ++ (qualifier ++ ['.'])))

theorem exists_match_of_mem (h : s ∈ keywordSuggestions index options path text) : ∃ m : Match,
    m.file ∈ index.files ∧ m.keyword ∈ m.file.keywords ∧ s = suggestionOf options path text index m := by
  by_cases hkind : (detectScope (contextOf index options path) text).kind = .invalid
  · rw [keywordSuggestions_of_invalid hkind] at h
    cases h
  · rw [keywordSuggestions_of_valid hkind] at h
    obtain ⟨m, hm, rfl⟩ := List.mem_map.mp h
    have hm := (List.mergeSort_perm _ _).mem_iff.mp (List.mem_of_mem_take hm)
    obtain ⟨f, hf, hm⟩ := List.mem_flatMap.mp hm
    obtain ⟨k, hk, hm⟩ := List.mem_filterMap.mp hm
    split at hm
    · obtain ⟨score, -, rfl⟩ := Option.map_eq_some_iff.mp hm
      exact ⟨_, List.mem_of_mem_filter hf, hk, rfl⟩
    · cases hm

/-- What a suggestion keeps of the text it was asked for: nothing, or the qualifier. -/
def Keeps (index : Index) (options : QueryOptions) (path : Option Path) (text : List Char) (s : Suggestion)
    (kept : List Char) : Prop :=
  kept = [] ∨ ∃ blanks qualifier, kept = blanks ++ (qualifier ++ ['.']) ∧ (∀ c ∈ blanks, isBlank c = true) ∧
    KeepsQualifier index options path text s qualifier

theorem keeps_keywordSuggestion (h : s ∈ keywordSuggestions index options path text) : ∃ kept rest,
    text = kept ++ rest ∧ s.replacement = ⟨byteLength kept, byteLength text⟩ ∧
      Keeps index options path text s kept := by
  obtain ⟨m, hfile, hkeyword, rfl⟩ := exists_match_of_mem h
  let cx := contextOf index options path
  let known := owners index cx.current (compared options path text index) m.keyword.name
  let suggestion := suggestionOf options path text index m
  have hreplacement : suggestion.replacement =
      ⟨if !decide (1 < known.length) && (detectScope cx text).kind == .fileQualified &&
        !options.removeDotNotation then (detectScope cx text).queryStart else 0, byteLength text⟩ := rfl
  rw [hreplacement]
  split
  · next hkept =>
    simp only [Bool.and_eq_true, Bool.not_eq_true', decide_eq_false_iff_not, beq_iff_eq] at hkept
    obtain ⟨⟨hone, hkind⟩, hdotted⟩ := hkept
    obtain ⟨⟨before, rest, htext, hstart, hleads⟩, hqualified⟩ := located_detectScope cx text
    rw [hkind] at hqualified
    cases hqualifier : (detectScope cx text).qualifier with
    | none =>
      rw [hqualifier] at hqualified
      cases hqualified
    | some qualifier =>
      have hkeeps : KeepsQualifier index options path text suggestion qualifier := by
        refine ⟨hkind, hqualifier, hdotted, m.file, hfile, m.keyword, hkeyword, rfl, ?_, ?_⟩
        · exact Nat.le_of_not_lt hone
        · intro hconsistent hambiguous
          apply hone
          exact (one_lt_length_owners hconsistent fun _ => current_mem index options path).mpr hambiguous
      rw [hqualifier] at hleads
      refine ⟨before, (detectScope cx text).query ++ rest, htext, by rw [hstart], ?_⟩
      cases hleads with
      | qualified blanks qualifier hblank => exact .inr ⟨blanks, qualifier, rfl, hblank, hkeeps⟩
  · exact ⟨[], text, rfl, rfl, .inl rfl⟩

theorem keeps_importSuggestion (h : s ∈ importSuggestions index options text) :
    s.replacement = ⟨0, byteLength text⟩ := by
  unfold importSuggestions at h
  split at h
  · cases h
  · obtain ⟨f, -, rfl⟩ := List.mem_map.mp h
    rfl

/-- A suggestion for what is typed keeps a step word, and behind it what the suggestion for the rest keeps. -/
theorem kept_of_mem (h : s ∈ suggestions index options path typed) : ∃ kept rest,
    typed = kept ++ rest ∧ s.replacement = ⟨byteLength kept, byteLength typed⟩ ∧
      Kept index options path typed s kept := by
  obtain ⟨v, hv, hs⟩ := List.mem_flatMap.mp h
  obtain ⟨t, ht, rfl⟩ := List.mem_map.mp hs
  obtain ⟨lead, hlead, htyped, hoffset⟩ := exists_step_of_mem_variants hv
  have hreading : ∃ kept rest, v.text = kept ++ rest ∧
      t.replacement = ⟨byteLength kept, byteLength v.text⟩ ∧ Keeps index options path v.text t kept := by
    rcases List.mem_append.mp ht with ht | ht
    · exact ⟨[], v.text, rfl, keeps_importSuggestion ht, .inl rfl⟩
    · exact keeps_keywordSuggestion ht
  obtain ⟨kept, rest, htext, hreplacement, hkeeps⟩ := hreading
  refine ⟨lead ++ kept, rest, ?_, ?_, ?_⟩
  · rw [htyped, htext, List.append_assoc]
  · rw [Suggestion.shift, hreplacement, htyped, byteLength_append, byteLength_append, hoffset,
      Nat.add_comm v.offset, Nat.add_comm v.offset]
  · rcases hkeeps with rfl | ⟨blanks, qualifier, rfl, hblank, hkeeps⟩
    · rw [List.append_nil]
      exact .step lead hlead
    · refine .qualified lead blanks qualifier v.text hlead htyped hblank ?_
      exact ⟨hkeeps.kind, hkeeps.qualifier, hkeeps.dotted, hkeeps.keyword⟩

end Suggesting

/-- A suggestion replaces what was typed from a character on to the end. What is before it is nothing or a
step word, and behind either of them the qualifier of a keyword that one record alone defines, if it is not to
be removed. The query of a scope stands at its offset in what was typed, and all cuts are made between
characters. -/
theorem replacements_sound (index : Index) (options : QueryOptions) (path : Option Path)
    (typed : List Char) :
    (∀ s ∈ suggestions index options path typed, s.replacement.start ≤ s.replacement.stop ∧
      s.replacement.stop = byteLength typed ∧
      ∃ kept, slice? 0 s.replacement.start typed = some kept ∧ Kept index options path typed s kept) ∧
    (∀ cx, slice? (detectScope cx typed).queryStart
      ((detectScope cx typed).queryStart + byteLength (detectScope cx typed).query) typed =
        some (detectScope cx typed).query) ∧
    slicedVariants? typed = some (variants typed) ∧
    ∀ name, slicedQualifier? name (trim typed) = some (cutQualifier? name (trim typed)) := by
  refine ⟨?_, ?_, slicedVariants?_eq typed, fun name => slicedQualifier?_eq name _⟩
  · intro s hs
    obtain ⟨kept, rest, rfl, hreplacement, hkept⟩ := kept_of_mem hs
    rw [hreplacement]
    refine ⟨?_, rfl, kept, slice?_front kept rest, hkept⟩
    rw [byteLength_append]
    exact Nat.le_add_right _ _
  · intro cx
    obtain ⟨before, rest, htyped, hstart, -⟩ := (located_detectScope cx typed).placed
    exact slice?_eq_some_iff.mpr ⟨before, rest, htyped, hstart, by rw [hstart]⟩

/-- The Kelvin sign is read as the `k` of the record, and has three bytes. -/
theorem replacements_sound_kelvin :
    let index := Index.after [.addTable { keywords := [⟨"Bar", "", [], none⟩] } ⟨"/p/k.robot"⟩]
    let options : QueryOptions := { removeDotNotation := false }
    let typed := "Given  \u212A.ba".toList
    ∃ s ∈ suggestions index options none typed, s.replacement = ⟨11, 13⟩ ∧
      Kept index options none typed s "Given  \u212A.".toList := by
  intro index options typed
  have hsuggested : ∃ s ∈ suggestions index options none typed, s.replacement = ⟨11, 13⟩ := by
    decide +kernel
  obtain ⟨s, hs, hreplacement⟩ := hsuggested
  obtain ⟨-, -, kept, hslice, hkept⟩ := (replacements_sound index options none typed).1 s hs
  have hfront : slice? 0 11 typed = some "Given  \u212A.".toList := by decide +kernel
  rw [hreplacement, hfront] at hslice
  obtain rfl := Option.some.inj hslice
  exact ⟨s, hs, hreplacement, hkept⟩

end KeywordIndex.Query
