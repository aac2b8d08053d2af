import KeywordIndex.Xml.Tag

namespace KeywordIndex.Xml

open Text

/-!
# Events of a document

A document is read as a run of events: tags, text and character data. Comments, instructions and document
types pass without an effect. Every end tag must match the innermost open one, while elements may be left
open at the end of the document.
-/

/-- What is met while a document is read. -/
inductive Event where
  | opened (tag : Tag)
  /-- A tag that closes itself. -/
  | selfClosed (tag : Tag)
  /-- The end of the innermost open element. -/
  | closed
  /-- Text with its references as written. -/
  | text (content : List Char)
  /-- Text that holds no references. -/
  | characterData (content : List Char)
  /-- A comment, an instruction or a document type. -/
  | skipped
  deriving DecidableEq, Repr

/-- The quotation mark that is open after `c`, if `open?` was open before it. -/
def openAfter (open? : Option Char) (c : Char) : Option Char :=
  match open? with
  | none => if c = '"' ∨ c = '\x27' then some c else none
  | some mark => if c = mark then none else some mark

/-- The text up to the first `>` outside quotation marks, and the text after it. The mark that is open
at the start is `open?`. -/
def cutTag? (open? : Option Char) : List Char → Option (List Char × List Char)
  | [] => none
  | c :: cs =>
    if open? = none ∧ c = '>' then some ([], cs)
    else (cutTag? (openAfter open? c) cs).map fun (inside, rest) => (c :: inside, rest)

/-- The text up to the first `>` that leaves `depth` brackets, counting `<` up and `>` down, balanced;
and the text after it. -/
def cutBalanced? (depth : Nat) : List Char → Option (List Char × List Char)
  | [] => none
  | c :: cs =>
    if c = '>' ∧ depth = 0 then some ([], cs)
    else
      let next := if c = '<' then depth + 1 else if c = '>' then depth - 1 else depth
      (cutBalanced? next cs).map fun (inside, rest) => (c :: inside, rest)

/-- An event with the names of the elements that are open after it and the text after it. -/
structure Step where
  event : Event
  names : List (List Char)
  rest : List Char

/-- Reads a comment after its `<!--`. -/
def readComment (names : List (List Char)) (cs : List Char) : Except Fault Step :=
  match cutAt? ['-', '-', '>'] cs with
  | some (_, rest) => .ok ⟨.skipped, names, rest⟩
  | none => .error .unclosedComment

/-- Reads character data after its `<![CDATA[`. -/
def readCharacterData (names : List (List Char)) (cs : List Char) : Except Fault Step :=
  match cutAt? [']', ']', '>'] cs with
  | some (content, rest) => .ok ⟨.characterData content, names, rest⟩
  | none => .error .unclosedCharacterData

/-- The word that begins a document type, in lowercase. -/
def doctypeWord : List Char := ['d', 'o', 'c', 't', 'y', 'p', 'e']

/-- Reads a document type after its `<!`. -/
def readDoctype (names : List (List Char)) (cs : List Char) : Except Fault Step :=
  match cutBalanced? 0 cs with
  | none => .error .unclosedDoctype
  | some (inside, rest) =>
    if (inside.take 7).map Char.toLower = doctypeWord then
      if (inside.drop 7).all isSpace then .error .namelessDoctype else .ok ⟨.skipped, names, rest⟩
    else .error .unclosedDoctype

/-- Reads what begins with `<!`. -/
def readDeclaration (names : List (List Char)) (cs : List Char) : Except Fault Step :=
  match cs with
  | '-' :: '-' :: comment => readComment names comment
  | '-' :: _ => .error .unclosedComment
  | '[' :: _ =>
    match after? ['[', 'C', 'D', 'A', 'T', 'A', '['] cs with
    | some content => readCharacterData names content
    | none => .error .unclosedCharacterData
  | 'D' :: _ => readDoctype names cs
  | 'd' :: _ => readDoctype names cs
  | _ => .error .unknownMarkup

/-- Reads what begins with `<?`; the text `cs` begins at the question mark. -/
def readInstruction (names : List (List Char)) (cs : List Char) : Except Fault Step :=
  match cutAt? ['?', '>'] cs with
  | some (_ :: _, rest) => .ok ⟨.skipped, names, rest⟩
  | _ => .error .unclosedInstruction

/-- The name in an end tag: trailing white space does not count unless there is nothing else. -/
def endName (content : List Char) : List Char :=
  match dropEndSpace content with
  | [] => content
  | name => name
where
  /-- Removes trailing white space. -/
  dropEndSpace (cs : List Char) : List Char := (cs.reverse.dropWhile isSpace).reverse

/-- Reads an end tag after its `</`. -/
def readEnd (names : List (List Char)) (cs : List Char) : Except Fault Step :=
  match cutTag? none cs with
  | none => .error .unclosedTag
  | some (content, rest) =>
    match names with
    | [] => .error (.unmatchedEnd (String.ofList (endName content)))
    | innermost :: outer =>
      if endName content = innermost then .ok ⟨.closed, outer, rest⟩
      else .error (.mismatchedEnd (String.ofList innermost) (String.ofList (endName content)))

/-- Reads a start tag after its `<`. -/
def readStart (names : List (List Char)) (cs : List Char) : Except Fault Step :=
  match cutTag? none cs with
  | none => .error .unclosedTag
  | some (content, rest) =>
    if content.getLast? = some '/' then .ok ⟨.selfClosed ⟨content.dropLast⟩, names, rest⟩
    else
      let tag : Tag := ⟨content⟩
      .ok ⟨.opened tag, tag.name :: names, rest⟩

/-- Reads markup after its `<`, inside the elements with the given names, innermost first. -/
def readMarkup (names : List (List Char)) (cs : List Char) : Except Fault Step :=
  match cs with
  | [] => .error .unclosedTag
  | '!' :: more => readDeclaration names more
  | '/' :: more => readEnd names more
  | '?' :: _ => readInstruction names cs
  | _ => readStart names cs

/-! ## Reading goes forward -/

theorem cutTag?_length {open? : Option Char} {cs inside rest : List Char}
    (h : cutTag? open? cs = some (inside, rest)) : rest.length < cs.length := by
  induction cs generalizing open? inside rest with
  | nil => simp [cutTag?] at h
  | cons c cs ih =>
    rw [cutTag?] at h
    split at h
    · simp only [Option.some.injEq, Prod.mk.injEq] at h
      simp [h.2]
    · simp only [Option.map_eq_some_iff, Prod.mk.injEq] at h
      obtain ⟨⟨i, r⟩, hir, -, rfl⟩ := h
      have := ih hir
      simp only [List.length_cons]
      omega

theorem cutBalanced?_length {depth : Nat} {cs inside rest : List Char}
    (h : cutBalanced? depth cs = some (inside, rest)) : rest.length < cs.length := by
  induction cs generalizing depth inside rest with
  | nil => simp [cutBalanced?] at h
  | cons c cs ih =>
    rw [cutBalanced?] at h
    split at h
    · simp only [Option.some.injEq, Prod.mk.injEq] at h
      simp [h.2]
    · simp only [Option.map_eq_some_iff, Prod.mk.injEq] at h
      obtain ⟨⟨i, r⟩, hir, -, rfl⟩ := h
      have := ih hir
      simp only [List.length_cons]
      omega

theorem cutAt?_length {needle cs before rest : List Char}
    (h : cutAt? needle cs = some (before, rest)) : rest.length ≤ cs.length := by
  rw [eq_of_cutAt? h]
  simp only [List.length_append]
  omega

theorem readComment_length {names : List (List Char)} {cs : List Char} {step : Step}
    (h : readComment names cs = .ok step) : step.rest.length ≤ cs.length := by
  rw [readComment] at h
  split at h
  · next hcut =>
    cases h
    exact cutAt?_length hcut
  · simp at h

theorem readCharacterData_length {names : List (List Char)} {cs : List Char} {step : Step}
    (h : readCharacterData names cs = .ok step) : step.rest.length ≤ cs.length := by
  rw [readCharacterData] at h
  split at h
  · next hcut =>
    cases h
    exact cutAt?_length hcut
  · simp at h

theorem readDoctype_length {names : List (List Char)} {cs : List Char} {step : Step}
    (h : readDoctype names cs = .ok step) : step.rest.length ≤ cs.length := by
  rw [readDoctype] at h
  split at h
  · simp at h
  · next hcut =>
    split at h
    · split at h
      · simp at h
      · cases h
        exact Nat.le_of_lt (cutBalanced?_length hcut)
    · simp at h

theorem readDeclaration_length {names : List (List Char)} {cs : List Char} {step : Step}
    (h : readDeclaration names cs = .ok step) : step.rest.length ≤ cs.length := by
  rw [readDeclaration.eq_def] at h
  split at h
  · have := readComment_length h
    simp only [List.length_cons]
    omega
  · simp at h
  · split at h
    · next hafter =>
      have := readCharacterData_length h
      rw [after?_eq_some_iff.1 hafter]
      simp only [List.length_append]
      omega
    · simp at h
  · exact readDoctype_length h
  · exact readDoctype_length h
  · simp at h

theorem readInstruction_length {names : List (List Char)} {cs : List Char} {step : Step}
    (h : readInstruction names cs = .ok step) : step.rest.length ≤ cs.length := by
  rw [readInstruction] at h
  split at h
  · next hcut =>
    cases h
    exact cutAt?_length hcut
  · simp at h

theorem readEnd_length {names : List (List Char)} {cs : List Char} {step : Step}
    (h : readEnd names cs = .ok step) : step.rest.length ≤ cs.length := by
  rw [readEnd] at h
  split at h
  · simp at h
  · next hcut =>
    have := cutTag?_length hcut
    split at h
    · simp at h
    · split at h
      · cases h
        exact Nat.le_of_lt this
      · simp at h

theorem readStart_length {names : List (List Char)} {cs : List Char} {step : Step}
    (h : readStart names cs = .ok step) : step.rest.length ≤ cs.length := by
  rw [readStart] at h
  split at h
  · simp at h
  · next hcut =>
    have := cutTag?_length hcut
    split at h <;>
    · cases h
      exact Nat.le_of_lt this

/-- Markup is never longer than what is read of it. -/
theorem readMarkup_length {names : List (List Char)} {cs : List Char} {step : Step}
    (h : readMarkup names cs = .ok step) : step.rest.length ≤ cs.length := by
  rw [readMarkup.eq_def] at h
  split at h
  · simp at h
  · have := readDeclaration_length h
    simp only [List.length_cons]
    omega
  · have := readEnd_length h
    simp only [List.length_cons]
    omega
  · exact readInstruction_length h
  · exact readStart_length h

/-! ## Documents -/

/-- The events of a document up to its end or to its first fault. -/
structure Reading where
  events : List Event
  fault : Option Fault
  deriving DecidableEq, Repr

/-- Puts an event before a reading. -/
def Reading.push (event : Event) (r : Reading) : Reading := { r with events := event :: r.events }

/-- Puts a text before a reading, if it is not empty. -/
def Reading.pushText (content : List Char) (r : Reading) : Reading :=
  if content.isEmpty then r else r.push (.text content)

/-- Reads the text `cs` inside the elements with the given names, innermost first. -/
def readFrom (names : List (List Char)) (cs : List Char) : Reading :=
  Reading.pushText (cs.takeWhile (· ≠ '<')) <|
    match h : cs.dropWhile (· ≠ '<') with
    | [] => ⟨[], none⟩
    | _ :: markup =>
      match hstep : readMarkup names markup with
      | .error fault => ⟨[], some fault⟩
      | .ok step =>
        have : step.rest.length < cs.length := by
          have bound := (List.dropWhile_sublist (· ≠ '<') (l := cs)).length_le
          have shorter := readMarkup_length hstep
          rw [h, List.length_cons] at bound
          omega
        Reading.push step.event (readFrom step.names step.rest)
termination_by cs.length

/-- Reads a document, past its byte order mark if it has one. -/
def read (document : List Char) : Reading :=
  match document with
  | '\uFEFF' :: cs => readFrom [] cs
  | _ => readFrom [] document

end KeywordIndex.Xml
