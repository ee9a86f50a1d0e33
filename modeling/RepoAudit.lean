import RepoAudit.Assessment
import RepoAudit.CommandLine.Flag
import RepoAudit.CommandLine.Invocation
import RepoAudit.CommandLine.Reading
import RepoAudit.CommandLine.Run
import RepoAudit.CommandLine.Usage
import RepoAudit.Complexity.Analysis
import RepoAudit.Complexity.Metrics
import RepoAudit.Config.Reader
import RepoAudit.Config.Settings
import RepoAudit.Contributors.Analysis
import RepoAudit.Contributors.Contribution
import RepoAudit.Contributors.Contributor
import RepoAudit.Coverage.Record
import RepoAudit.Coverage.Report
import RepoAudit.Decimal.Read
import RepoAudit.Decimal.Round
import RepoAudit.Decimal.Shortest
import RepoAudit.Decimal.Unsigned
import RepoAudit.Decimal.Whole
import RepoAudit.Dependencies.Analysis
import RepoAudit.Dependencies.Dependency
import RepoAudit.Dependencies.Manifest
import RepoAudit.Dependencies.VersionSpec
import RepoAudit.Failure
import RepoAudit.FileTree.Basic
import RepoAudit.FileTree.Walk
import RepoAudit.FileTree.Write
import RepoAudit.Finding
import RepoAudit.Glob
import RepoAudit.IssueTracker.Analysis
import RepoAudit.IssueTracker.Health
import RepoAudit.IssueTracker.Metrics
import RepoAudit.Json.Basic
import RepoAudit.Json.Decode
import RepoAudit.Json.Node
import RepoAudit.Json.Printer
import RepoAudit.Json.Reader
import RepoAudit.Language
import RepoAudit.Level
import RepoAudit.Licenses.Analysis
import RepoAudit.Licenses.Compliance
import RepoAudit.Licenses.Identifier
import RepoAudit.Licenses.Recognition
import RepoAudit.Licenses.Terms
import RepoAudit.Main
import RepoAudit.Migration.Definition
import RepoAudit.Migration.Plan
import RepoAudit.Migration.Registry
import RepoAudit.Path
import RepoAudit.Pattern.Basic
import RepoAudit.Pattern.Classes
import RepoAudit.Payload.Basic
import RepoAudit.Payload.Date
import RepoAudit.Performance.Analysis
import RepoAudit.Performance.Detector
import RepoAudit.Proofs.CommandLine.AllAnalyses
import RepoAudit.Proofs.CommandLine.Output
import RepoAudit.Proofs.Complexity.Consistency
import RepoAudit.Proofs.Complexity.Decisions
import RepoAudit.Proofs.Complexity.Duplication
import RepoAudit.Proofs.Complexity.FunctionLength
import RepoAudit.Proofs.Complexity.Nesting
import RepoAudit.Proofs.Complexity.ShortLines
import RepoAudit.Proofs.Config.Accepted
import RepoAudit.Proofs.Config.Discovery
import RepoAudit.Proofs.Contributors.BusFactor
import RepoAudit.Proofs.Contributors.Growth
import RepoAudit.Proofs.Contributors.Records
import RepoAudit.Proofs.Contributors.Reordering
import RepoAudit.Proofs.Contributors.Totals
import RepoAudit.Proofs.Coverage.LineTotals
import RepoAudit.Proofs.Coverage.RepeatedLines
import RepoAudit.Proofs.Coverage.Sections
import RepoAudit.Proofs.Decimal.Unsigned
import RepoAudit.Proofs.Dependencies.Collected
import RepoAudit.Proofs.Dependencies.GoModules
import RepoAudit.Proofs.Dependencies.Isolation
import RepoAudit.Proofs.Dependencies.MajorVersion
import RepoAudit.Proofs.Dependencies.MavenBlocks
import RepoAudit.Proofs.Dependencies.RequirementLine
import RepoAudit.Proofs.Dependencies.SetupListing
import RepoAudit.Proofs.Dependencies.Troubles
import RepoAudit.Proofs.Except
import RepoAudit.Proofs.FileTree.Ancestors
import RepoAudit.Proofs.FileTree.Below
import RepoAudit.Proofs.FileTree.Events
import RepoAudit.Proofs.FileTree.Excluded
import RepoAudit.Proofs.FileTree.Growth
import RepoAudit.Proofs.FileTree.Iteration
import RepoAudit.Proofs.FileTree.Lookup
import RepoAudit.Proofs.FileTree.NewFile
import RepoAudit.Proofs.FileTree.Shape
import RepoAudit.Proofs.FileTree.Sight
import RepoAudit.Proofs.FileTree.Visits
import RepoAudit.Proofs.FileTree.Writing
import RepoAudit.Proofs.IssueTracker.Bottlenecks
import RepoAudit.Proofs.IssueTracker.Counts
import RepoAudit.Proofs.IssueTracker.StaleLimit
import RepoAudit.Proofs.Json.Integers
import RepoAudit.Proofs.Json.Members
import RepoAudit.Proofs.Json.Reading
import RepoAudit.Proofs.Json.RoundTrip
import RepoAudit.Proofs.Json.Sorted
import RepoAudit.Proofs.Json.Tokens
import RepoAudit.Proofs.Json.Writings
import RepoAudit.Proofs.Licenses.Combination
import RepoAudit.Proofs.Licenses.Confinement
import RepoAudit.Proofs.Licenses.DeclaredForms
import RepoAudit.Proofs.Licenses.DependencyChanges
import RepoAudit.Proofs.Licenses.Expression
import RepoAudit.Proofs.Licenses.Spellings
import RepoAudit.Proofs.Licenses.TitleFamilies
import RepoAudit.Proofs.Licenses.TitleVersion
import RepoAudit.Proofs.Licenses.Troubles
import RepoAudit.Proofs.Licenses.Unrecognized
import RepoAudit.Proofs.Lists
import RepoAudit.Proofs.Migration.Listing
import RepoAudit.Proofs.Path
import RepoAudit.Proofs.Pattern.Counts
import RepoAudit.Proofs.Pattern.Delimited
import RepoAudit.Proofs.Pattern.Matches
import RepoAudit.Proofs.Pattern.Offsets
import RepoAudit.Proofs.Pattern.Preferred
import RepoAudit.Proofs.Pattern.Scan
import RepoAudit.Proofs.Pattern.Takes
import RepoAudit.Proofs.Pattern.Ways
import RepoAudit.Proofs.Payload.Feeds
import RepoAudit.Proofs.Payload.Reloading
import RepoAudit.Proofs.Performance.Blocks
import RepoAudit.Proofs.Performance.BraceBlocks
import RepoAudit.Proofs.Performance.Findings
import RepoAudit.Proofs.Performance.LoopNesting
import RepoAudit.Proofs.Performance.Places
import RepoAudit.Proofs.PullRequest.FindingLines
import RepoAudit.Proofs.PullRequest.HunkHeader
import RepoAudit.Proofs.PullRequest.LineKinds
import RepoAudit.Proofs.PullRequest.MatchedLines
import RepoAudit.Proofs.PullRequest.UnifiedDiff
import RepoAudit.Proofs.Ranking
import RepoAudit.Proofs.Report.PlainCells
import RepoAudit.Proofs.Report.RecommendationTable
import RepoAudit.Proofs.Report.TableRows
import RepoAudit.Proofs.Repository.Accounting
import RepoAudit.Proofs.Repository.Excluded
import RepoAudit.Proofs.Repository.Sources
import RepoAudit.Proofs.Repository.Totality
import RepoAudit.Proofs.Repository.Troubles
import RepoAudit.Proofs.Repository.WrittenPaths
import RepoAudit.Proofs.Structure.AddedFile
import RepoAudit.Proofs.Structure.Languages
import RepoAudit.Proofs.Structure.Signs
import RepoAudit.Proofs.Structure.Troubles
import RepoAudit.Proofs.Tally
import RepoAudit.Proofs.Text.ByteOrder
import RepoAudit.Proofs.Text.LetterCase
import RepoAudit.Proofs.Text.Lines
import RepoAudit.Proofs.Text.Offsets
import RepoAudit.Proofs.Text.Removal
import RepoAudit.Proofs.Text.Search
import RepoAudit.Proofs.Text.Sentences
import RepoAudit.Proofs.Text.Words
import RepoAudit.Proofs.Time.Elapsed
import RepoAudit.Proofs.Time.Forward
import RepoAudit.Proofs.Time.Latest
import RepoAudit.Proofs.Time.Range
import RepoAudit.Proofs.WorkerPool
import RepoAudit.PullRequest.Patch
import RepoAudit.PullRequest.Probe
import RepoAudit.PullRequest.Review
import RepoAudit.Report.Basic
import RepoAudit.Report.Format
import RepoAudit.Report.Markdown
import RepoAudit.Report.Table
import RepoAudit.Report.Terminal
import RepoAudit.Repository
import RepoAudit.Structure.Analysis
import RepoAudit.Structure.Layout
import RepoAudit.Structure.Tooling
import RepoAudit.Tally
import RepoAudit.Text.Basic
import RepoAudit.Text.CharClass
import RepoAudit.Text.Printable
import RepoAudit.Text.Width
import RepoAudit.Text.WordChar
import RepoAudit.Time.Civil
import RepoAudit.Time.Span
import RepoAudit.Time.Timestamp
import RepoAudit.Toml.Basic
import RepoAudit.Toml.Reader
import RepoAudit.TreeAnalysis
import RepoAudit.WorkerPool
