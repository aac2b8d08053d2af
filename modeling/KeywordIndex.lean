import KeywordIndex.Decimal.Binary
import KeywordIndex.Decimal.Fixed
import KeywordIndex.Decimal.Shortest
import KeywordIndex.Error
import KeywordIndex.Glob.Pattern
import KeywordIndex.Index.Basic
import KeywordIndex.Index.Imports
import KeywordIndex.Index.NameTable
import KeywordIndex.Index.Record
import KeywordIndex.Index.Views
import KeywordIndex.Json.Decode
import KeywordIndex.Json.Fault
import KeywordIndex.Json.Node
import KeywordIndex.Json.Number
import KeywordIndex.Json.Quote
import KeywordIndex.Json.Token
import KeywordIndex.Libdoc.Document
import KeywordIndex.Libdoc.Marker
import KeywordIndex.Libdoc.Walk
import KeywordIndex.Library.Acquisition
import KeywordIndex.Library.Cache
import KeywordIndex.Library.Command
import KeywordIndex.Library.Entry
import KeywordIndex.Library.Install
import KeywordIndex.LineIndex
import KeywordIndex.Outline
import KeywordIndex.Path.Basic
import KeywordIndex.Path.Key
import KeywordIndex.Path.Normal
import KeywordIndex.Project.Coalescer
import KeywordIndex.Project.Loader
import KeywordIndex.Project.Status
import KeywordIndex.Project.Workspace
import KeywordIndex.Proofs.Index.Consistency
import KeywordIndex.Proofs.Index.Links
import KeywordIndex.Proofs.Index.NameTable
import KeywordIndex.Proofs.Path.Canonical
import KeywordIndex.Proofs.Path.Containment
import KeywordIndex.Proofs.Project.Acquired
import KeywordIndex.Proofs.Project.ImportLinks
import KeywordIndex.Proofs.Project.Loading
import KeywordIndex.Proofs.Project.Operation
import KeywordIndex.Proofs.Project.Replay
import KeywordIndex.Proofs.Project.Session
import KeywordIndex.Proofs.Project.Update
import KeywordIndex.Proofs.Text.ByteOrder
import KeywordIndex.Proofs.Text.Separator
import KeywordIndex.Query.Options
import KeywordIndex.Query.Scope
import KeywordIndex.Query.Score
import KeywordIndex.Query.Similarity
import KeywordIndex.Query.Suggestion
import KeywordIndex.Query.Typed
import KeywordIndex.Recognition
import KeywordIndex.Robot.Lexeme
import KeywordIndex.Robot.Row
import KeywordIndex.Robot.Section
import KeywordIndex.Robot.Source
import KeywordIndex.Settings
import KeywordIndex.Shell.Builtin
import KeywordIndex.Shell.Calculation
import KeywordIndex.Shell.Command
import KeywordIndex.Shell.Condition
import KeywordIndex.Shell.Evaluation
import KeywordIndex.Shell.Expansion
import KeywordIndex.Shell.Field
import KeywordIndex.Shell.Grammar
import KeywordIndex.Shell.Job
import KeywordIndex.Shell.Launching
import KeywordIndex.Shell.Machine
import KeywordIndex.Shell.Meaning
import KeywordIndex.Shell.Pattern
import KeywordIndex.Shell.Printing
import KeywordIndex.Shell.Reading
import KeywordIndex.Shell.Redirection
import KeywordIndex.Shell.RegularExpression
import KeywordIndex.Shell.Running
import KeywordIndex.Shell.System
import KeywordIndex.Shell.Utility
import KeywordIndex.Shell.Utility.Contents
import KeywordIndex.Shell.Utility.Edit
import KeywordIndex.Shell.Utility.Files
import KeywordIndex.Shell.Utility.Lines
import KeywordIndex.Shell.Utility.Plain
import KeywordIndex.Shell.Utility.Search
import KeywordIndex.Shell.Utility.Words
import KeywordIndex.Shell.Word
import KeywordIndex.Storage.Basic
import KeywordIndex.Storage.Disk
import KeywordIndex.Storage.Memory
import KeywordIndex.Text.Alphanumeric
import KeywordIndex.Text.Ascii
import KeywordIndex.Text.Blank
import KeywordIndex.Text.Casing
import KeywordIndex.Text.CodeRange
import KeywordIndex.Text.Lowercase
import KeywordIndex.Text.Quoted
import KeywordIndex.Text.Split
import KeywordIndex.Text.Utf8
import KeywordIndex.Xml.Event
import KeywordIndex.Xml.Fault
import KeywordIndex.Xml.Reference
import KeywordIndex.Xml.Tag
import KeywordIndex.Proofs.Query.Ranking
import KeywordIndex.Proofs.Query.Ambiguity
import KeywordIndex.Proofs.Query.Scope
import KeywordIndex.Proofs.Query.History
import KeywordIndex.Proofs.Library.Cache
import KeywordIndex.Proofs.Project.Idempotence
import KeywordIndex.Proofs.Project.Coalescing
import KeywordIndex.Proofs.Project.Agreement
import KeywordIndex.Proofs.Robot.Lines
import KeywordIndex.Proofs.Robot.Cells
import KeywordIndex.Proofs.Robot.Sections
import KeywordIndex.Proofs.Robot.Placement
import KeywordIndex.Proofs.Robot.Writing
import KeywordIndex.Proofs.Robot.RoundTrip
import KeywordIndex.Proofs.Library.Merging
import KeywordIndex.Proofs.Project.Course
import KeywordIndex.Proofs.Project.Fallbacks
import KeywordIndex.Proofs.Project.Consistency
import KeywordIndex.Proofs.Project.Rereading
import KeywordIndex.Proofs.Project.Scanning
import KeywordIndex.Proofs.Index.Missing
import KeywordIndex.Proofs.Project.Resolution
import KeywordIndex.Proofs.Text.Cutting
import KeywordIndex.Proofs.Text.Lowercase
import KeywordIndex.Proofs.Path.Composition
import KeywordIndex.Proofs.Index.Subtree
import KeywordIndex.Proofs.Project.Isolation
import KeywordIndex.Proofs.Query.Matching
import KeywordIndex.Proofs.Query.Acceptance
import KeywordIndex.Proofs.Xml.Document
import KeywordIndex.Proofs.Xml.Tags
import KeywordIndex.Proofs.Xml.Reading
import KeywordIndex.Proofs.Libdoc.Levels
import KeywordIndex.Proofs.Libdoc.Agreement
import KeywordIndex.Proofs.Libdoc.Schemas
import KeywordIndex.Proofs.Text.Words
import KeywordIndex.Proofs.Robot.Grammar
import KeywordIndex.Proofs.Robot.Entries
import KeywordIndex.Proofs.Robot.Headers
import KeywordIndex.Proofs.Robot.Recognition
import KeywordIndex.Proofs.Text.Slices
import KeywordIndex.Proofs.Query.WordStarts
import KeywordIndex.Proofs.Query.Qualifiers
import KeywordIndex.Proofs.Query.TypedCell
import KeywordIndex.Proofs.Query.Replacement
import KeywordIndex.Proofs.Text.Sigma
import KeywordIndex.Proofs.Query.Beginnings
import KeywordIndex.Proofs.Index.Origin
import KeywordIndex.Proofs.Path.FileName
import KeywordIndex.Proofs.Query.NamedImports
import KeywordIndex.Proofs.Project.Reporting
import KeywordIndex.Proofs.Query.ImportNames
import KeywordIndex.Proofs.Text.Positions
import KeywordIndex.Proofs.Storage.Listing
import KeywordIndex.Proofs.Xml.Markup
import KeywordIndex.Proofs.Xml.Nesting
import KeywordIndex.Proofs.Libdoc.Walking
import KeywordIndex.Proofs.Libdoc.Truncation
import KeywordIndex.Proofs.Libdoc.Markers
import KeywordIndex.Proofs.Libdoc.KeywordTags
import KeywordIndex.Proofs.Libdoc.Placement
import KeywordIndex.Proofs.Shell.Machine
