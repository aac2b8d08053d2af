import KeywordIndex.Proofs.Libdoc.Agreement

namespace KeywordIndex.Libdoc

open Text
open Xml (Element)

/-! # Both schemas of a library document

The older schema has the keywords directly below the root and the arguments as texts, the newer one has them
below an element of their own and the arguments in attributes. A document of either declares the keywords that
were written (`declaration_of_writtenOlder`, `declaration_of_writtenNewer`), so the same keywords are read
from both (`outline_agrees`).
-/

/-! ## Arguments -/

theorem ofText_of_not_isInfix {text : List Char} (h : ¬ ['='] <:+: text) :
    Argument.ofText text = ⟨String.ofList (trim text), none⟩ := by
  rw [Argument.ofText, cutAt?_eq_none_iff.mpr h]

theorem ofText_append {name : List Char} (h : ¬ ['='] <:+: name) (value : List Char) :
    Argument.ofText (name ++ '=' :: value) =
      ⟨String.ofList (trim name), some (String.ofList (trim value))⟩ := by
  have hcut : cutAt? ['='] (name ++ '=' :: value) = some (name, value) := by
    have happend := cutAt?_append_last [] (by decide) h value
    rwa [List.append_assoc] at happend
  rw [Argument.ofText, hcut]

/-- Blanks around an argument do not matter. -/
theorem ofText_trim (text : List Char) : Argument.ofText (trim text) = Argument.ofText text := by
  cases hcut : cutAt? ['='] text with
  | none =>
    have hnone := cutAt?_eq_none_iff.mp hcut
    rw [ofText_of_not_isInfix hnone, ofText_of_not_isInfix fun h => hnone (h.trans (trim_isInfix text)),
      trim_trim]
  | some parts =>
    obtain ⟨name, value⟩ := parts
    -- the first equals sign stays the first one, as only the outer ends are trimmed
    have hname : ¬ ['='] <:+: name := not_infix_of_cutAt? (by decide) hcut
    have htrimmed : ¬ ['='] <:+: trimStart name :=
      fun h => hname (h.trans (List.dropWhile_suffix isBlank).isInfix)
    obtain rfl : text = name ++ '=' :: value := by
      rw [eq_of_cutAt? hcut, List.append_assoc]
      rfl
    rw [trim_append_cons (by decide), ofText_append htrimmed, ofText_append hname, trim_trimStart,
      trim_trimEnd]

/-- Texts that are equal but for the blanks around them are the same arguments. -/
theorem map_ofText_congr {as bs : List (List Char)} (h : as.map trim = bs.map trim) :
    as.map Argument.ofText = bs.map Argument.ofText := by
  have htrim : ∀ texts : List (List Char),
      texts.map Argument.ofText = (texts.map trim).map Argument.ofText := by
    intro texts
    rw [List.map_map]
    exact List.map_congr_left fun text _ => (ofText_trim text).symm
  rw [htrim as, h, ← htrim bs]

/-! ## Keywords -/

/-- A keyword to be written into a document. -/
structure KeywordText where
  name : List Char
  documentation : List Char
  arguments : List (List Char)
  /-- No argument is blank. -/
  nonblank : ∀ a ∈ arguments, trim a ≠ []

/-- What the keyword declares. -/
def KeywordText.declaration (k : KeywordText) : Declaration where
  name := String.ofList (trim k.name)
  documentation := String.ofList (trim k.documentation)
  arguments := k.arguments.map Argument.ofText
  position := none

/-- What both schemas have in common. Blanks may stand around every text. -/
structure Written (k : KeywordText) (e : Element) : Prop where
  name : (e.attribute? nameAttribute).map trim = some (trim k.name)
  documentation : trim ((e.below documentationName).flatMap (·.directText)) = trim k.documentation

/-- The older schema has every argument as the text of its element. -/
structure WrittenOlder (k : KeywordText) (e : Element) : Prop extends Written k e where
  arguments : (argumentElements e).map (trim ·.directText) = k.arguments.map trim

/-- The newer schema has every argument in an attribute of its element, which has no text of its own. -/
structure WrittenNewer (k : KeywordText) (e : Element) : Prop extends Written k e where
  arguments : (argumentElements e).map (fun a => (a.attribute? reprAttribute).map trim) =
    k.arguments.map fun a => some (trim a)
  untold : ∀ a ∈ argumentElements e, trim a.directText = []

variable {k : KeywordText} {e : Element}

/-- An element declares the keyword if it gives the same arguments. -/
theorem declaration_of_written (h : Written k e)
    (harguments : (declaration e).arguments = k.arguments.map Argument.ofText) :
    declaration e = k.declaration := by
  have hname : trim ((e.attribute? nameAttribute).getD []) = trim k.name := by
    obtain ⟨name, heq, htrim⟩ := Option.map_eq_some_iff.mp h.name
    rwa [heq]
  have hfields : declaration e = ⟨String.ofList (trim k.name), String.ofList (trim k.documentation),
      (declaration e).arguments, none⟩ := by
    rw [← hname, ← h.documentation]
    rfl
  rw [hfields, harguments]
  rfl

theorem declaration_of_writtenOlder (h : WrittenOlder k e) : declaration e = k.declaration := by
  refine declaration_of_written h.toWritten ?_
  have htexts : argumentTexts (argumentElements e) = k.arguments.map trim := by
    rw [argumentTexts, h.arguments, List.filter_eq_self]
    intro text hmem
    obtain ⟨a, ha, rfl⟩ := List.mem_map.mp hmem
    exact decide_eq_true (k.nonblank a ha)
  have hmap : (k.arguments.map trim).map trim = k.arguments.map trim := by
    rw [List.map_map]
    exact List.map_congr_left fun a _ => trim_trim a
  simp only [declaration, htexts]
  split
  · next hnil =>
    -- a keyword without arguments has no argument elements, and so no attributes either
    have hempty : argumentElements e = [] :=
      List.map_eq_nil_iff.mp (h.arguments.trans hnil)
    rw [hempty, List.map_eq_nil_iff.mp hnil]
    rfl
  · exact map_ofText_congr hmap

theorem declaration_of_writtenNewer (h : WrittenNewer k e) : declaration e = k.declaration := by
  refine declaration_of_written h.toWritten ?_
  have htexts : argumentTexts (argumentElements e) = [] := by
    rw [argumentTexts, List.filter_eq_nil_iff]
    intro text hmem
    obtain ⟨a, ha, rfl⟩ := List.mem_map.mp hmem
    simp [h.untold a ha]
  have hrepresentations :
      (argumentRepresentations (argumentElements e)).map trim = k.arguments.map trim := by
    calc (argumentRepresentations (argumentElements e)).map trim
        = ((argumentElements e).map fun a => (a.attribute? reprAttribute).map trim).filterMap id := by
          rw [argumentRepresentations, List.map_filterMap, List.filterMap_map]
          rfl
      _ = k.arguments.map trim := by
          rw [h.arguments, List.filterMap_map]
          exact congrFun List.filterMap_eq_map k.arguments
  simp only [declaration, htexts, if_true]
  exact map_ofText_congr hrepresentations

/-! ## Documents -/

/-- A document of the older schema. -/
structure WritesOlder (keywords : List KeywordText) (d : Xml.Document) : Prop where
  root : d.root.localName = rootName
  ungrouped : d.root.below keywordsName = []
  keywords : List.Forall₂ WrittenOlder keywords (d.root.below keywordName)

/-- A document of the newer schema. -/
structure WritesNewer (keywords : List KeywordText) (d : Xml.Document) : Prop where
  root : d.root.localName = rootName
  grouped : d.root.below keywordName = []
  keywords : ∃ group, d.root.below keywordsName = [group] ∧
    List.Forall₂ WrittenNewer keywords (group.below keywordName)

theorem ne_of_below_eq_nil {name : List Char} (h : e.below name = []) :
    ∀ c ∈ e.children, c.localName ≠ name := by
  intro c hc heq
  have hmem : c ∈ e.below name := List.mem_filter.mpr ⟨hc, decide_eq_true heq⟩
  rw [h] at hmem
  exact List.not_mem_nil hmem

/-- Without keywords of the one kind, the keyword elements of a root are those of the other. -/
theorem keywordElements_of_ungrouped {root : Element} (h : root.below keywordsName = []) :
    keywordElements root = root.below keywordName := by
  have hnone := ne_of_below_eq_nil h
  have hkeep : keywordElements root =
      root.children.flatMap fun c => if c.localName = keywordName then [c] else [] :=
    List.flatMap_congr fun c hc => by rw [if_neg (hnone c hc)]
  rw [hkeep, flatMap_ite, List.flatMap_singleton']

theorem keywordElements_of_grouped {root : Element} (h : root.below keywordName = []) :
    keywordElements root = (root.below keywordsName).flatMap (·.below keywordName) := by
  have hnone := ne_of_below_eq_nil h
  rw [← flatMap_ite]
  exact List.flatMap_congr fun c hc => by rw [if_neg (hnone c hc)]

theorem map_declaration_of_forall₂ {writes : KeywordText → Element → Prop}
    (h : ∀ k e, writes k e → declaration e = k.declaration) {keywords : List KeywordText}
    {elements : List Element} (hall : List.Forall₂ writes keywords elements) :
    elements.map declaration = keywords.map KeywordText.declaration := by
  induction hall with
  | nil => rfl
  | cons hwrites _ ih => rw [List.map_cons, List.map_cons, h _ _ hwrites, ih]

/-- A library document is read into an outline with the keywords of its tree, in their order; the keywords
are the same whether they are written in the older or in the newer schema.

Of the well-formed documents `Xml.Document` leaves out those that refer to an entity that they declare
themselves, and those whose document type has brackets that do not balance, as in a quoted text. A value that a
document type gives to an attribute that is not written is no attribute of the tree. Texts are taken as they
are written, without putting line ends into one form. -/
theorem outline_agrees (d : Xml.Document) (h : d.root.localName = rootName) :
    (∃ keywords, outline? d.written = .ok (some { keywords }) ∧
      keywords.map unplaced = (keywordElements d.root).map declaration) ∧
    ∀ texts, WritesOlder texts d ∨ WritesNewer texts d →
      ∃ keywords, outline? d.written = .ok (some { keywords }) ∧
        keywords.map unplaced = texts.map KeywordText.declaration := by
  refine ⟨outline_written d h, fun texts hwrites => ?_⟩
  obtain ⟨keywords, houtline, hkeywords⟩ := outline_written d h
  refine ⟨keywords, houtline, hkeywords.trans ?_⟩
  rcases hwrites with holder | hnewer
  · rw [keywordElements_of_ungrouped holder.ungrouped]
    exact map_declaration_of_forall₂ (fun _ _ => declaration_of_writtenOlder) holder.keywords
  · obtain ⟨group, hgroup, hall⟩ := hnewer.keywords
    rw [keywordElements_of_grouped hnewer.grouped, hgroup, List.flatMap_singleton]
    exact map_declaration_of_forall₂ (fun _ _ => declaration_of_writtenNewer) hall

/-- An element with its content, and what follows it. -/
def sampleElement (name : Xml.Name) (attributes : List Xml.Attribute) (inner rest : Xml.Content) :
    Xml.Content :=
  .element [] ⟨name, attributes, ⟨[], nofun⟩⟩ inner ⟨[], nofun⟩ rest

/-- A library document with the content of its root. -/
def sampleDocument (inner : Xml.Content) : Xml.Document where
  isMarked := false
  content := sampleElement ⟨rootName, by decide, by decide⟩ [] inner (.text [])
  unmarked := fun h => absurd (Option.some.inj h) (by decide)
  root := ⟨⟨⟨rootName, by decide, by decide⟩, [], ⟨[], nofun⟩⟩, some inner⟩
  single := rfl

/-- An attribute in double quotes. -/
def sampleAttribute (key : Xml.Name) (value : List Xml.Symbol) (closed : '"' ∉ Xml.writtenText value) :
    Xml.Attribute :=
  ⟨⟨[' '], by decide⟩, by decide, key, ⟨[], nofun⟩, ⟨[], nofun⟩, .double, value, closed⟩

/-- The keyword `A&B` with an argument that has a default value. -/
def sampleKeyword : KeywordText where
  name := ['A', '&', 'B']
  documentation := ['d']
  arguments := [['c', '=', '1']]
  nonblank := by decide

/-- The keyword element around its content. -/
def sampleKeywordElement (inner : Xml.Content) : Xml.Content :=
  sampleElement ⟨keywordName, by decide, by decide⟩
    [sampleAttribute ⟨nameAttribute, by decide, by decide⟩
      [.literal 'A' (by decide), .reference .ampersand, .literal 'B' (by decide)] (by decide)]
    (sampleElement ⟨documentationName, by decide, by decide⟩ [] (.text [.literal 'd' (by decide)])
      (sampleElement ⟨argumentsName, by decide, by decide⟩ [] inner (.text [])))
    (.text [])

def sampleArgument : List Xml.Symbol :=
  [.literal 'c' (by decide), .literal '=' (by decide), .literal '1' (by decide)]

def sampleOlder : Xml.Document :=
  sampleDocument (sampleKeywordElement
    (sampleElement ⟨argumentName, by decide, by decide⟩ [] (.text sampleArgument) (.text [])))

def sampleNewer : Xml.Document :=
  sampleDocument (sampleElement ⟨keywordsName, by decide, by decide⟩ []
    (sampleKeywordElement (sampleElement ⟨argumentName, by decide, by decide⟩
      [sampleAttribute ⟨reprAttribute, by decide, by decide⟩ sampleArgument (by decide)]
      (sampleElement ⟨nameAttribute, by decide, by decide⟩ [] (.text [.literal 'c' (by decide)]) (.text []))
      (.text [])))
    (.text []))

theorem sampleOlder_writes : WritesOlder [sampleKeyword] sampleOlder where
  root := by decide
  ungrouped := rfl
  keywords := .cons ⟨⟨by decide, by decide⟩, by decide⟩ .nil

theorem sampleNewer_writes : WritesNewer [sampleKeyword] sampleNewer where
  root := by decide
  grouped := rfl
  keywords := ⟨_, rfl, .cons ⟨⟨by decide, by decide⟩, by decide, by decide⟩ .nil⟩

theorem sample_outlines_agree :
    (sampleOlder.root.localName = rootName ∧ WritesOlder [sampleKeyword] sampleOlder ∧
      ∃ keywords, outline? sampleOlder.written = .ok (some { keywords }) ∧
        keywords.map unplaced = [sampleKeyword.declaration]) ∧
    (sampleNewer.root.localName = rootName ∧ WritesNewer [sampleKeyword] sampleNewer ∧
      ∃ keywords, outline? sampleNewer.written = .ok (some { keywords }) ∧
        keywords.map unplaced = [sampleKeyword.declaration]) :=
  ⟨⟨by decide, sampleOlder_writes,
    (outline_agrees sampleOlder (by decide)).2 [sampleKeyword] (Or.inl sampleOlder_writes)⟩,
   ⟨by decide, sampleNewer_writes,
    (outline_agrees sampleNewer (by decide)).2 [sampleKeyword] (Or.inr sampleNewer_writes)⟩⟩

end KeywordIndex.Libdoc
