import KeywordIndex.Query.Options
import KeywordIndex.Query.Scope
import KeywordIndex.Query.Score
import KeywordIndex.Query.Typed

namespace KeywordIndex.Query

open Text

/-!
# Suggestions

A keyword is suggested if it lies in the scope of the typed text, is visible to the current file and
matches. Suggestions are ranked by score; keywords of files that share the name of the current one come
first among equals, then names and keys decide. A name that several searched files define is inserted
with the name of its file. Queries never fail.
-/

/-- What a suggestion inserts. -/
inductive SuggestionKind where
  | keyword
  | importName
  deriving DecidableEq, Repr

/-- The bytes of the typed text that a suggestion replaces. -/
structure Span where
  start : Nat
  stop : Nat
  deriving DecidableEq, Repr

/-- A suggestion. -/
structure Suggestion where
  /-- The inserted text, with placeholders for arguments. -/
  insertionText : String
  displayText : String
  kind : SuggestionKind
  leftLabel : String := ""
  rightLabel : String
  documentationSummary : String := ""
  replacement : Span
  keyword : Option KeywordId := none
  deriving DecidableEq

/-- The suggestion for a text that begins `offset` bytes earlier. -/
def Suggestion.shift (offset : Nat) (s : Suggestion) : Suggestion :=
  { s with replacement := ⟨s.replacement.start + offset, s.replacement.stop + offset⟩ }

/-! ## Names to import -/

/-- Whether a display name, or its last part after a dot, begins with the query in any case. -/
def startsName (query : List Char) (displayName : String) : Bool :=
  let name := lower displayName.toList
  query.isPrefixOf name || query.isPrefixOf ((split '.' name).getLast?.getD name)

/-- The records that differ in display name from all before them. -/
def firstOfNames (files : List SourceFile) : List SourceFile :=
  files.foldl
    (fun kept f => if kept.any (·.displayName == f.displayName) then kept else kept ++ [f]) []

/-- The suggestion of a name to import. -/
def importSuggestion (typed : List Char) (f : SourceFile) : Suggestion where
  insertionText := f.displayName
  displayText := f.displayName
  kind := .importName
  rightLabel := if f.isLibrary then "Library" else "Resource"
  replacement := ⟨0, byteLength typed⟩

/-- The display names that begin with the typed text, in order. -/
def importSuggestions (index : Index) (options : QueryOptions) (typed : List Char) : List Suggestion :=
  if !options.showLibrarySuggestions then []
  else
    let query := lower (trim typed)
    let named := firstOfNames (index.files.filter fun f => startsName query f.displayName)
    (named.mergeSort fun f g => f.displayName ≤ g.displayName).map (importSuggestion typed)

/-! ## Keywords -/

/-- A keyword that matches, with its record. -/
structure Match where
  file : SourceFile
  keyword : Keyword
  score : Float

/-- Whether the current file sees a keyword. -/
def isVisible (current : Option SourceFile) (k : Keyword) : Bool :=
  !k.isLocal || current.any (·.key == k.id.file)

/-- The visible keywords of the searched files that match the query. -/
def matchesIn (index : Index) (current : Option SourceFile) (scope : Scope) : List Match :=
  (index.files.filter fun f => scope.candidates.contains f.key).flatMap fun f =>
    f.keywords.filterMap fun k =>
      if isVisible current k then
        (score? scope.query k.name.toList).map fun score => ⟨f, k, score⟩
      else none

/-- The order of suggestions. The stem of the current path is `currentName`. -/
def compareMatches (currentName : Option String) (a b : Match) : Ordering :=
  let isCurrent (m : Match) : Bool := currentName == some m.file.displayName
  (compare (rank b.score) (rank a.score)).then <|
    (compare (isCurrent b) (isCurrent a)).then <|
      (compare a.keyword.name b.keyword.name).then (compare a.file.key.text b.file.key.text)

/-- The matches in the order of suggestions; equal ones stay as they are. -/
def ranked (currentName : Option String) (found : List Match) : List Match :=
  found.mergeSort fun a b => compareMatches currentName a b != .gt

/-- The records among the candidates that define a visible keyword with the given name. -/
def owners (index : Index) (current : Option SourceFile) (candidates : Candidates) (name : String) :
    List Key :=
  distinct <|
    ((index.keywordsNamed name).filter fun k =>
      isVisible current k && candidates.contains k.id.file).map (·.id.file)

/-- The placeholders of the arguments, numbered from `number`. -/
def placeholders (separator : String) (number : Nat) : List Argument → String
  | [] => ""
  | a :: rest =>
    separator ++ "$\x7b" ++ toString number ++ ":" ++ a.shown ++ "\x7d" ++
      placeholders separator (number + 1) rest

/-- The inserted text of a keyword that is inserted by the given name. -/
def insertionText (options : QueryOptions) (name : String) (k : Keyword) : String :=
  if options.suggestArguments then
    let wanted := k.arguments.filter fun a => options.includeDefaultArguments || !a.isOptional
    name ++ placeholders options.argumentSeparator 1 wanted
  else name

/-- The suggestion of a keyword. An ambiguous name is qualified and replaces all that was typed. -/
def keywordSuggestion (options : QueryOptions) (typed : List Char) (scope : Scope) (isAmbiguous : Bool)
    (m : Match) : Suggestion :=
  let k := m.keyword
  let name := if isAmbiguous then m.file.displayName ++ "." ++ k.name else k.name
  let keepsQualifier :=
    !isAmbiguous && scope.kind == .fileQualified && !options.removeDotNotation
  let arguments := k.argumentsText
  { insertionText := insertionText options name k
    displayText :=
      if options.showArguments && !arguments.isEmpty then k.name ++ " - " ++ arguments else k.name
    kind := .keyword
    rightLabel := m.file.displayName
    documentationSummary :=
      String.ofList (trimStart (k.summary ++ " Arguments: " ++ arguments).toList)
    replacement := ⟨if keepsQualifier then scope.queryStart else 0, byteLength typed⟩
    keyword := some k.id }

/-- The context of a query typed in the file with the given path. -/
def contextOf (index : Index) (options : QueryOptions) (path : Option Path) : ScopeContext where
  index := index
  current := path.bind index.fileByPath?
  internalModifier := options.internalScopeModifier
  baseLibrary := options.baseLibrary

/-- The keywords suggested for a typed text. -/
def keywordSuggestions (index : Index) (options : QueryOptions) (path : Option Path)
    (typed : List Char) : List Suggestion :=
  let cx := contextOf index options path
  let scope := detectScope cx typed
  if scope.kind = .invalid then []
  else
    let compared := if options.globalAmbiguity then .all else scope.candidates
    let kept :=
      (ranked (path.bind Path.stem?) (matchesIn index cx.current scope)).take options.maxSuggestions
    kept.map fun m =>
      let isAmbiguous := 1 < (owners index cx.current compared m.keyword.name).length
      keywordSuggestion options typed scope isAmbiguous m

/-! ## All suggestions -/

/-- All suggestions for a typed text. For each of its readings come the names to import and then the
keywords, and each reading has its own limit. -/
def suggestions (index : Index) (options : QueryOptions) (path : Option Path) (typed : List Char) :
    List Suggestion :=
  (variants typed).flatMap fun v =>
    (importSuggestions index options v.text ++ keywordSuggestions index options path v.text).map
      (Suggestion.shift v.offset)

end KeywordIndex.Query
