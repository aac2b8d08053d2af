import KeywordIndex.Error
import KeywordIndex.Libdoc.Document
import KeywordIndex.Library.Acquisition

namespace KeywordIndex

open Text

/-!
# Library cache

The cache holds an entry for each library that table files refer to. A library that succeeded once is
not downgraded by a later run that fails; only its message changes. Where the generator fails, documents
that are registered as fallbacks stand in.
-/

/-- The libraries known so far, in the order in which they came. -/
structure LibraryCache where
  entries : List LibraryEntry := []
  /-- The documents that stand in, by the name of the library. -/
  fallbacks : List (String × Path) := []
  environment : Environment := {}
  deriving DecidableEq

/-- A library whose document was read. -/
structure LoadedLibrary where
  name : String
  document : Path
  source : Option Path
  outline : Outline

/-- The message of a library whose document is none. -/
def invalidDocument : String := "Not a valid Libdoc xml file"

namespace LibraryCache

/-- The entry of a library. -/
def entry? (c : LibraryCache) (name : String) : Option LibraryEntry :=
  c.entries.find? (·.name == name)

/-- The document that stands in for a library. -/
def fallback? (c : LibraryCache) (name : String) : Option Path := c.fallbacks.lookup name

/-- Whether a library is cached as a success. -/
def hasSuccess (c : LibraryCache) (name : String) : Bool := (c.entry? name).any (·.isSuccess)

/-! ## Fallbacks -/

/-- Registers a document under the stem of its path; a later one replaces an earlier one. -/
def addFallback (c : LibraryCache) (document : Path) : LibraryCache :=
  match document.stem? with
  | some name => { c with fallbacks := putNamed name document c.fallbacks }
  | none => c

/-- Registers some documents. -/
def addFallbacks (c : LibraryCache) (documents : List Path) : LibraryCache :=
  documents.foldl addFallback c

/-- Forgets all registered documents. -/
def clearFallbacks (c : LibraryCache) : LibraryCache := { c with fallbacks := [] }

/-! ## Entries -/

/-- Puts an entry in the place of the one with its name, or last. -/
def putIn (e : LibraryEntry) : List LibraryEntry → List LibraryEntry
  | [] => [e]
  | other :: rest => if other.name == e.name then e :: rest else other :: putIn e rest

/-- Puts an entry into the cache. -/
def put (c : LibraryCache) (e : LibraryEntry) : LibraryCache :=
  { c with entries := putIn e c.entries }

/-- Keeps only the entries with one of the given names. -/
def keepOnly (c : LibraryCache) (names : List String) : LibraryCache :=
  { c with entries := c.entries.filter fun e => names.contains e.name }

/-- What a reported entry makes of the cached one: a failure leaves a success as it is, but for the
message. -/
def merged (c : LibraryCache) (e : LibraryEntry) : LibraryEntry :=
  match c.entry? e.name with
  | some old => if !e.isSuccess && old.isSuccess then { old with message := e.message } else e
  | none => e

/-- Merges reported entries into the cache, and lists what became of each. -/
def merge (c : LibraryCache) : List LibraryEntry → LibraryCache × List LibraryEntry
  | [] => (c, [])
  | e :: rest =>
    let kept := c.merged e
    let (c, others) := (c.put kept).merge rest
    (c, kept :: others)

/-- Replaces the entry of a known library. -/
def update (c : LibraryCache) (e : LibraryEntry) : LibraryCache :=
  if (c.entry? e.name).isSome then c.put e else c

/-- Takes what came of a request. -/
def apply (c : LibraryCache) (acquisition : Acquisition) : LibraryCache × List LibraryEntry :=
  { c with environment := acquisition.environment }.merge acquisition.libraries

/-- Lets a registered document stand in for a library that has no success. The message stays. -/
def applyFallback (c : LibraryCache) (name : String) : LibraryCache :=
  if c.hasSuccess name then c
  else
    match c.fallback? name with
    | none => c
    | some document =>
      c.put { LibraryEntry.fallback name document with
        message := (c.entry? name).bind (·.message) }

/-- Lets registered documents stand in for all of the given libraries that have no success. -/
def applyFallbacks (c : LibraryCache) (names : List String) : LibraryCache :=
  names.foldl applyFallback c

/-! ## Documents -/

/-- Reads a library document that has keywords. -/
def readDocument (storage : Storage) (path : Path) : Except String Outline :=
  match storage.readText path with
  | .error fault => .error (Error.unreadable path fault).message
  | .ok text =>
    match Libdoc.parse? text with
    | some outline => if outline.hasKeywords then .ok outline else .error invalidDocument
    | none => .error invalidDocument

/-- Reads the document of a successful entry. An entry whose document cannot be read becomes a failure. -/
def loadEntry (storage : Storage) (e : LibraryEntry) : LibraryEntry × Option LoadedLibrary :=
  match e.isSuccess, e.document with
  | true, some document =>
    match readDocument storage document with
    | .ok outline => (e, some ⟨e.name, document, e.source, outline⟩)
    | .error message => (.failed e.name message, none)
  | _, _ => (e, none)

/-- Reads the documents of all successful entries. -/
def load (c : LibraryCache) (storage : Storage) : LibraryCache × List LoadedLibrary :=
  let results := c.entries.map (loadEntry storage)
  ({ c with entries := results.map (·.1) }, results.filterMap (·.2))

end LibraryCache

end KeywordIndex
