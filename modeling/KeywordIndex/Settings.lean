import KeywordIndex.Glob.Pattern
import KeywordIndex.Json.Decode
import KeywordIndex.Path.Basic
import KeywordIndex.Query.Options

namespace KeywordIndex

open Json

/-!
# Settings

Settings belong to the host. They may be given as JSON, where every field that is left out keeps its
standard value. Two of these are places on the machine of the host.
-/

/-- The places that stand in for fields that are left out. -/
structure StandardPlaces where
  /-- Where the generator writes its documents. -/
  documents : Path
  /-- Where documents are that are used when the generator fails. -/
  fallbacks : Option Path

/-- The settings of a workspace. -/
structure Settings where
  /-- Extensions of files that may be table files. -/
  tableExtensions : List String := [".robot", ".txt", ".resource"]
  /-- Files of that many bytes or more are passed over. -/
  sizeLimit : Nat := 1024 * 1024
  maxSuggestions : Nat := 100
  /-- Globs for the names of files and directories that are passed over. -/
  excludes : List String := []
  /-- Whether documents among the files of a project may stand in for generated ones. -/
  usesProjectDocuments : Bool := true
  showLibrarySuggestions : Bool := true
  showArguments : Bool := false
  suggestArguments : Bool := true
  includeDefaultArguments : Bool := false
  argumentSeparator : String := "    "
  removeDotNotation : Bool := true
  internalScopeModifier : String := "this"
  /-- The interpreter that runs the generator. -/
  executable : String := "python"
  modulePaths : List String := []
  documentDirectory : Path
  fallbackDirectory : Option Path
  globalAmbiguity : Bool := false
  baseLibrary : String := "BuiltIn"
  deriving DecidableEq

namespace Settings

/-- The standard settings. -/
def standard (places : StandardPlaces) : Settings where
  documentDirectory := places.documents
  fallbackDirectory := places.fallbacks

/-- The options of queries. -/
def queryOptions (s : Settings) : QueryOptions where
  maxSuggestions := s.maxSuggestions
  showLibrarySuggestions := s.showLibrarySuggestions
  showArguments := s.showArguments
  suggestArguments := s.suggestArguments
  includeDefaultArguments := s.includeDefaultArguments
  argumentSeparator := s.argumentSeparator
  removeDotNotation := s.removeDotNotation
  internalScopeModifier := s.internalScopeModifier
  baseLibrary := s.baseLibrary
  globalAmbiguity := s.globalAmbiguity

/-- The compiled exclude globs. -/
def patterns (s : Settings) : Except Glob.Fault (List Glob.Pattern) :=
  s.excludes.mapM fun text => Glob.Pattern.ofText text.toList

/-! ## JSON form -/

/-- A field of the settings that is taken by a decoder. -/
def fieldOf {α : Type} (name : String) (d : Decoder α) (set : Settings → α → Settings) :
    RecordField Settings where
  name := name
  set := fun s node => (d node).map (set s)

/-- The fields in the order of their declaration. -/
def fields : List (RecordField Settings) :=
  [fieldOf "robotExtensions" (.list .string) fun s v => { s with tableExtensions := v },
    fieldOf "maxFileSize" (.natural "u64") fun s v => { s with sizeLimit := v },
    fieldOf "maxKeywordSuggestions" (.natural "usize") fun s v => { s with maxSuggestions := v },
    fieldOf "excludePatterns" (.list .string) fun s v => { s with excludes := v },
    fieldOf "processLibdocFiles" .bool fun s v => { s with usesProjectDocuments := v },
    fieldOf "showLibrarySuggestions" .bool fun s v => { s with showLibrarySuggestions := v },
    fieldOf "showArguments" .bool fun s v => { s with showArguments := v },
    fieldOf "suggestArguments" .bool fun s v => { s with suggestArguments := v },
    fieldOf "includeDefaultArguments" .bool fun s v => { s with includeDefaultArguments := v },
    fieldOf "argumentSeparator" .string fun s v => { s with argumentSeparator := v },
    fieldOf "removeDotNotation" .bool fun s v => { s with removeDotNotation := v },
    fieldOf "internalScopeModifier" .string fun s v => { s with internalScopeModifier := v },
    fieldOf "executable" .string fun s v => { s with executable := v },
    fieldOf "moduleSearchPaths" (.list .string) fun s v => { s with modulePaths := v },
    fieldOf "libdocDir" .path fun s v => { s with documentDirectory := ⟨v⟩ },
    fieldOf "fallbackLibraryDir" (.optional .path) fun s v =>
      { s with fallbackDirectory := v.map Path.mk },
    fieldOf "globalAmbiguity" .bool fun s v => { s with globalAmbiguity := v },
    fieldOf "baseLibrary" .string fun s v => { s with baseLibrary := v }]

/-- How settings are given. -/
def form : RecordForm Settings := ⟨"struct Settings", fields, fun _ => .trailingText⟩

/-- Takes settings from a tree. -/
def decoder (places : StandardPlaces) : Decoder Settings := form.decoder (standard places)

/-- Reads settings from a text. -/
def ofJson (places : StandardPlaces) (text : List Char) : Except Fault Settings :=
  (decoder places).read text

end Settings

end KeywordIndex
