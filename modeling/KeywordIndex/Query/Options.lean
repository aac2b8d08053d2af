namespace KeywordIndex

/-!
# Query options

What a host may choose about suggestions.
-/

/-- The options of a query. -/
structure QueryOptions where
  /-- The most keywords that one query suggests. -/
  maxSuggestions : Nat := 100
  showLibrarySuggestions : Bool := true
  /-- Whether arguments are shown behind the name of a keyword. -/
  showArguments : Bool := false
  /-- Whether placeholders for arguments are inserted. -/
  suggestArguments : Bool := true
  /-- Whether arguments with a default get placeholders too. -/
  includeDefaultArguments : Bool := false
  argumentSeparator : String := "    "
  /-- Whether a typed qualifier is replaced along with the keyword. -/
  removeDotNotation : Bool := true
  /-- The qualifier that stands for the current file. -/
  internalScopeModifier : String := "this"
  /-- The library that every file sees. -/
  baseLibrary : String := "BuiltIn"
  /-- Whether names are compared across the whole index to see if they are ambiguous. -/
  globalAmbiguity : Bool := false
  deriving DecidableEq

end KeywordIndex
