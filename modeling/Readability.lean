import Readability.Command.Arguments
import Readability.Command.Basic
import Readability.Command.Description
import Readability.Command.Fault
import Readability.Command.Hints
import Readability.Command.Output
import Readability.Command.Run
import Readability.Command.Score
import Readability.Command.Settings
import Readability.Command.ShowModel
import Readability.Command.Usage
import Readability.Command.Worktree
import Readability.Config.Glob
import Readability.Config.Project
import Readability.Config.User
import Readability.Data.Decoder
import Readability.Data.Json.Parser
import Readability.Data.Json.Printer
import Readability.Data.Toml.Parser
import Readability.Data.Toml.Table
import Readability.Data.Value
import Readability.Decimal.Exact
import Readability.Decimal.Fixed
import Readability.Decimal.Nearest
import Readability.Decimal.Plain
import Readability.Decimal.Shortest
import Readability.FatalError
import Readability.Feature.Layout
import Readability.Feature.Measure
import Readability.Feature.Tally
import Readability.Feature.Vector
import Readability.Files.Disk
import Readability.Git.Changes
import Readability.Git.Discovery
import Readability.Git.History
import Readability.Git.Library
import Readability.Git.Lookup
import Readability.Git.Object
import Readability.Git.Queue
import Readability.Git.Repository
import Readability.Git.RevisionName
import Readability.Git.Sha1
import Readability.Git.Similarity
import Readability.Git.Summary
import Readability.Git.Walk
import Readability.History.Basic
import Readability.History.Document
import Readability.History.Memory
import Readability.Ignore.Pattern
import Readability.Ignore.Rules
import Readability.Ignore.Walk
import Readability.Main
import Readability.Model.Basic
import Readability.Model.Document
import Readability.Model.Hint
import Readability.Model.Sources
import Readability.Number.Double
import Readability.Number.Word
import Readability.Render.Csv
import Readability.Render.Html
import Readability.Render.Markdown
import Readability.Render.Number
import Readability.Render.Registry
import Readability.Render.Style
import Readability.Render.Template
import Readability.Render.Terminal
import Readability.Report.Aggregate
import Readability.Report.Basic
import Readability.Report.Document
import Readability.Report.Summary
import Readability.Report.Trend
import Readability.Run.Cache
import Readability.Run.Granularity
import Readability.Run.Pipeline
import Readability.Run.Scoring
import Readability.Run.Signal
import Readability.Run.State
import Readability.Run.Xxh3
import Readability.Source.Document
import Readability.Source.Language
import Readability.Source.LineRange
import Readability.Source.Path
import Readability.Source.Scope
import Readability.Source.SourceUnit
import Readability.Source.Token
import Readability.Source.Tree
import Readability.Source.UnitError
import Readability.Source.UnitId
import Readability.Text.Blank
import Readability.Text.CodePoints
import Readability.Text.Cut
import Readability.Text.Escapes
import Readability.Text.Letters
import Readability.Text.Lines
import Readability.Text.Lowercase
import Readability.Text.Quoted
import Readability.Text.Utf8
import Readability.Time.Calendar
import Readability.Time.Instant
import Readability.Time.Written
import Readability.Proofs.StableSort
import Readability.Proofs.Arrival
import Readability.Proofs.Statistics
import Readability.Proofs.Timeline
import Readability.Proofs.Walk
import Readability.Proofs.Interruption
import Readability.Proofs.Interleaving
import Readability.Proofs.Sharing
import Readability.Proofs.Accounting
import Readability.Proofs.Schedules
import Readability.Proofs.Doubles
import Readability.Proofs.Acceptance
import Readability.Proofs.ScoreRange
import Readability.Proofs.Hints
import Readability.Proofs.Swaps
import Readability.Proofs.Provenance
import Readability.Proofs.Blocks
import Readability.Proofs.Mirror
import Readability.Proofs.RevisionMeans
import Readability.Proofs.Threads
import Readability.Proofs.Snapshots
import Readability.Proofs.CommitLog
import Readability.Proofs.Ranges
import Readability.Proofs.ForwardFill
import Readability.Proofs.Lifecycle
import Readability.Proofs.Separators
import Readability.Proofs.Lines
import Readability.Proofs.Snippets
import Readability.Proofs.Nesting
import Readability.Proofs.Tags
import Readability.Proofs.Templates
import Readability.Proofs.CsvReading
import Readability.Proofs.Numerals
import Readability.Proofs.Markup
import Readability.Proofs.Page
import Readability.Proofs.Tables
import Readability.Proofs.JsonReading
import Readability.Proofs.RoundTrip
import Readability.Proofs.ModelDocuments
import Readability.Proofs.Trees
import Readability.Proofs.Listing
import Readability.Proofs.Differences
import Readability.Proofs.StraightLine
import Readability.Proofs.Naming
import Readability.Proofs.ListedFiles
import Readability.Proofs.TwoStores
import Readability.Proofs.Agreement
import Readability.Proofs.Expressions
import Readability.Proofs.Globs
import Readability.Proofs.ControlCharacters
import Readability.Proofs.Emission
import Readability.Proofs.Offsets
import Readability.Proofs.SyntaxTrees
import Readability.Proofs.Regions
import Readability.Proofs.ParsedUnits
import Readability.Proofs.Relocation
import Readability.Proofs.LineEndings
import Readability.Proofs.FinalFeed
import Readability.Proofs.Rows
import Readability.Proofs.Indents
import Readability.Proofs.NestedNodes
import Readability.Proofs.TokenCounts
import Readability.Proofs.CommentedLines
import Readability.Proofs.CheckedReading
import Readability.Proofs.CheckedTable
import Readability.Proofs.CheckedMeasures
import Readability.Proofs.Shares
import Readability.Proofs.SafeExtraction
import Readability.Proofs.Addresses
import Readability.Proofs.FlattenedTree
import Readability.Proofs.FirstFault
import Readability.Proofs.LeastSquares
import Readability.Proofs.SourceOrder
import Readability.Proofs.ListedFunctions
