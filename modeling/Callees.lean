import Callees.Block
import Callees.CallSite
import Callees.Command
import Callees.Command.Arguments
import Callees.Data
import Callees.Data.Issue
import Callees.Data.Json
import Callees.Data.JsonReader
import Callees.Data.Literal
import Callees.Data.Reader
import Callees.Data.Toml
import Callees.Data.Toml.Scalar
import Callees.Definition
import Callees.Document
import Callees.Failure
import Callees.Files
import Callees.Files.Scan
import Callees.Language
import Callees.Log
import Callees.Lookup
import Callees.Lookup.Scripted
import Callees.Main
import Callees.Number.Binary64
import Callees.Number.Shortest
import Callees.Path
import Callees.Pattern
import Callees.Pattern.Glob
import Callees.Pattern.Ignore
import Callees.Pipeline
import Callees.Pipeline.Pool
import Callees.Pipeline.Script
import Callees.Pipeline.Traffic
import Callees.Pipeline.Update
import Callees.Position
import Callees.Proofs.AcceptedSettings
import Callees.Proofs.Addresses
import Callees.Proofs.Blocks
import Callees.Proofs.BodyExtent
import Callees.Proofs.BraceScope
import Callees.Proofs.ByteColumns
import Callees.Proofs.CallSites
import Callees.Proofs.CallUnderCursor
import Callees.Proofs.CalledWords
import Callees.Proofs.Calls
import Callees.Proofs.ControlHeaders
import Callees.Proofs.Conversions
import Callees.Proofs.DefinitionExtent
import Callees.Proofs.EnclosingBlock
import Callees.Proofs.EnclosingFunction
import Callees.Proofs.FailedEvents
import Callees.Proofs.FileTree
import Callees.Proofs.FoundDefinition
import Callees.Proofs.HeaderForms
import Callees.Proofs.HeaderReads
import Callees.Proofs.HeaderText
import Callees.Proofs.HeaderWords
import Callees.Proofs.HoverAnswers
import Callees.Proofs.IndexSnapshot
import Callees.Proofs.IndexedSymbols
import Callees.Proofs.LastParens
import Callees.Proofs.Lines
import Callees.Proofs.LinesAndBreaks
import Callees.Proofs.LocalExtent
import Callees.Proofs.LocalMatches
import Callees.Proofs.LocatedScope
import Callees.Proofs.LowerCase
import Callees.Proofs.Margins
import Callees.Proofs.Matching
import Callees.Proofs.NestedBlocks
import Callees.Proofs.NewestEvent
import Callees.Proofs.NumberedAnswers
import Callees.Proofs.Offsets
import Callees.Proofs.OpenedFiles
import Callees.Proofs.OtherBlocks
import Callees.Proofs.OutlineOrder
import Callees.Proofs.OutlineRanges
import Callees.Proofs.PathNames
import Callees.Proofs.PathText
import Callees.Proofs.ProviderFailures
import Callees.Proofs.RecordData
import Callees.Proofs.Repetitions
import Callees.Proofs.ReportForm
import Callees.Proofs.Requests
import Callees.Proofs.ResolutionOrder
import Callees.Proofs.RowsAndLines
import Callees.Proofs.Runs
import Callees.Proofs.SameScope
import Callees.Proofs.ScannedBodies
import Callees.Proofs.ScopeBody
import Callees.Proofs.ScopeNames
import Callees.Proofs.Script
import Callees.Proofs.Searching
import Callees.Proofs.SettingsFile
import Callees.Proofs.ShownText
import Callees.Proofs.SourceFiles
import Callees.Proofs.SourceRows
import Callees.Proofs.SpanCalls
import Callees.Proofs.Spelling
import Callees.Proofs.Steady
import Callees.Proofs.StrictUtf8
import Callees.Proofs.TicketOrder
import Callees.Proofs.Tiers
import Callees.Proofs.TightestSymbol
import Callees.Proofs.TomlFaults
import Callees.Proofs.TomlScan
import Callees.Proofs.Traffic
import Callees.Proofs.Utf8
import Callees.Proofs.WordUnderCursor
import Callees.Proofs.Words
import Callees.Proofs.WrittenData
import Callees.Proofs.WrittenLines
import Callees.Report
import Callees.Report.Reader
import Callees.Report.Render
import Callees.Scope
import Callees.Scope.Header
import Callees.Settings
import Callees.Snapshot
import Callees.Symbol
import Callees.SyntaxTree
import Callees.Text.Classes
import Callees.Text.LetterCase
import Callees.Text.Lines
import Callees.Text.Printable
import Callees.Text.Utf8
import Callees.Uri
import Callees.Verify
import Callees.Workspace
