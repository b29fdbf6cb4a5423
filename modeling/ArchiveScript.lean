import ArchiveScript.CommandLine.Invocation
import ArchiveScript.CommandLine.Options
import ArchiveScript.CommandLine.Sqlite
import ArchiveScript.CommandLine.Workplace
import ArchiveScript.Config.Config
import ArchiveScript.Config.DateTable
import ArchiveScript.Config.Toml
import ArchiveScript.Config.TomlReader
import ArchiveScript.Decimal.Binary64
import ArchiveScript.Decimal.Shortest
import ArchiveScript.Dict
import ArchiveScript.Machine.Disk
import ArchiveScript.Machine.Octets
import ArchiveScript.Machine.Process
import ArchiveScript.Machine.Program
import ArchiveScript.Machine.Shell.Builtin
import ArchiveScript.Machine.Shell.Command
import ArchiveScript.Machine.Shell.Expand
import ArchiveScript.Machine.Shell.Pattern
import ArchiveScript.Machine.Shell.Run
import ArchiveScript.Machine.Shell.Word
import ArchiveScript.Machine.SystemError
import ArchiveScript.Machine.Utility.Catalog
import ArchiveScript.Machine.Utility.Condition
import ArchiveScript.Machine.Utility.Files
import ArchiveScript.Machine.Utility.Lines
import ArchiveScript.Machine.Utility.Print
import ArchiveScript.Main
import ArchiveScript.Metadata.Document
import ArchiveScript.Metadata.Ledger
import ArchiveScript.Metadata.Outline
import ArchiveScript.Metadata.Report
import ArchiveScript.Path
import ArchiveScript.Proofs.CommandLine.Groups
import ArchiveScript.Proofs.Metadata.SExpressions
import ArchiveScript.Proofs.Path.Components
import ArchiveScript.Proofs.Path.Extensions
import ArchiveScript.Proofs.Printing.Blocks
import ArchiveScript.Proofs.Printing.Contents
import ArchiveScript.Proofs.Printing.Declaration
import ArchiveScript.Proofs.Printing.Document
import ArchiveScript.Proofs.Printing.Expression
import ArchiveScript.Proofs.Printing.Interpolated
import ArchiveScript.Proofs.Printing.Lines
import ArchiveScript.Proofs.Printing.Phrase
import ArchiveScript.Proofs.Printing.PlainBlocks
import ArchiveScript.Proofs.Printing.Roundtrip
import ArchiveScript.Proofs.Printing.Singles
import ArchiveScript.Proofs.Printing.Spacing
import ArchiveScript.Proofs.Printing.Statement
import ArchiveScript.Proofs.Printing.Verbatim
import ArchiveScript.Proofs.Rows.Counting
import ArchiveScript.Proofs.Rows.Embedding
import ArchiveScript.Proofs.Rows.Equality
import ArchiveScript.Proofs.Rows.FreshTraversals
import ArchiveScript.Proofs.Rows.Locks
import ArchiveScript.Proofs.Rows.Measures
import ArchiveScript.Proofs.Rows.Traversals
import ArchiveScript.Proofs.Rows.Underway
import ArchiveScript.Proofs.Rows.Views
import ArchiveScript.Proofs.Rows.WrittenTables
import ArchiveScript.Proofs.Run.Accumulation
import ArchiveScript.Proofs.Run.ArchiveOutput
import ArchiveScript.Proofs.Run.Assignment
import ArchiveScript.Proofs.Run.BlockTexts
import ArchiveScript.Proofs.Run.Composition
import ArchiveScript.Proofs.Run.Confinement
import ArchiveScript.Proofs.Run.Contract
import ArchiveScript.Proofs.Run.Ensures
import ArchiveScript.Proofs.Run.Escapes
import ArchiveScript.Proofs.Run.Follows
import ArchiveScript.Proofs.Run.Interpolated
import ArchiveScript.Proofs.Run.Items
import ArchiveScript.Proofs.Run.Likeness
import ArchiveScript.Proofs.Run.LineEnds
import ArchiveScript.Proofs.Run.Located
import ArchiveScript.Proofs.Run.Locks
import ArchiveScript.Proofs.Run.LostTexts
import ArchiveScript.Proofs.Run.Margin
import ArchiveScript.Proofs.Run.Moves
import ArchiveScript.Proofs.Run.Nesting
import ArchiveScript.Proofs.Run.Operands
import ArchiveScript.Proofs.Run.Parameters
import ArchiveScript.Proofs.Run.Parts
import ArchiveScript.Proofs.Run.Placeholders
import ArchiveScript.Proofs.Run.Progress
import ArchiveScript.Proofs.Run.Provenance
import ArchiveScript.Proofs.Run.Recursion
import ArchiveScript.Proofs.Run.Rendering
import ArchiveScript.Proofs.Run.ReportPaths
import ArchiveScript.Proofs.Run.Rounds
import ArchiveScript.Proofs.Run.SafeValues
import ArchiveScript.Proofs.Run.Steps
import ArchiveScript.Proofs.Run.StringTexts
import ArchiveScript.Proofs.Run.Templates
import ArchiveScript.Proofs.Run.Visits
import ArchiveScript.Proofs.Script.Accounts
import ArchiveScript.Proofs.Script.BlockAccounts
import ArchiveScript.Proofs.Script.BlockLikeness
import ArchiveScript.Proofs.Script.Blocks
import ArchiveScript.Proofs.Script.Composition
import ArchiveScript.Proofs.Script.Declarations
import ArchiveScript.Proofs.Script.Drafts
import ArchiveScript.Proofs.Script.ExpressionLikeness
import ArchiveScript.Proofs.Script.Grammatical
import ArchiveScript.Proofs.Script.ItemLines
import ArchiveScript.Proofs.Script.ItemParts
import ArchiveScript.Proofs.Script.Layouts
import ArchiveScript.Proofs.Script.LineAgreement
import ArchiveScript.Proofs.Script.LineEnds
import ArchiveScript.Proofs.Script.LineLikeness
import ArchiveScript.Proofs.Script.LineSpans
import ArchiveScript.Proofs.Script.Loops
import ArchiveScript.Proofs.Script.MistakeSpans
import ArchiveScript.Proofs.Script.Nesting
import ArchiveScript.Proofs.Script.Phrases
import ArchiveScript.Proofs.Script.Plain
import ArchiveScript.Proofs.Script.Productions
import ArchiveScript.Proofs.Script.Rounds
import ArchiveScript.Proofs.Script.Scans
import ArchiveScript.Proofs.Script.ScriptMistakes
import ArchiveScript.Proofs.Script.ScriptTrees
import ArchiveScript.Proofs.Script.Simulation
import ArchiveScript.Proofs.Script.StatementLikeness
import ArchiveScript.Proofs.Script.Statements
import ArchiveScript.Proofs.Script.Termination
import ArchiveScript.Proofs.Script.TracedItems
import ArchiveScript.Proofs.Script.Trials
import ArchiveScript.Proofs.Script.VerbatimBlocks
import ArchiveScript.Proofs.Script.Yields
import ArchiveScript.Proofs.Source.Excerpts
import ArchiveScript.Proofs.Source.LineEnds
import ArchiveScript.Proofs.Source.LineSearch
import ArchiveScript.Proofs.Source.NumberedLines
import ArchiveScript.Proofs.Text.Quoting
import ArchiveScript.Proofs.Tree.Alike
import ArchiveScript.Proofs.Tree.Arena
import ArchiveScript.Proofs.Tree.Grammar
import ArchiveScript.Proofs.Tree.LineUse
import ArchiveScript.Proofs.Tree.Nesting
import ArchiveScript.Proofs.Tree.Reach
import ArchiveScript.Proofs.Tree.Spans
import ArchiveScript.Rows.Basic
import ArchiveScript.Rows.Cursor
import ArchiveScript.Rows.Store
import ArchiveScript.Run.Expression
import ArchiveScript.Run.Failure
import ArchiveScript.Run.Host
import ArchiveScript.Run.LogSink
import ArchiveScript.Run.Rehearsal
import ArchiveScript.Run.Scope
import ArchiveScript.Run.Session
import ArchiveScript.Run.Statement
import ArchiveScript.Run.Status
import ArchiveScript.Run.Template
import ArchiveScript.Run.Timing
import ArchiveScript.Run.Value
import ArchiveScript.Run.World
import ArchiveScript.Script.Builder
import ArchiveScript.Script.Complaint
import ArchiveScript.Script.Declaration
import ArchiveScript.Script.Draft
import ArchiveScript.Script.Expression
import ArchiveScript.Script.Parse
import ArchiveScript.Script.Reader
import ArchiveScript.Script.Scan
import ArchiveScript.Script.Statement
import ArchiveScript.Script.Verbatim
import ArchiveScript.Source.Excerpt
import ArchiveScript.Source.Line
import ArchiveScript.Source.LineTable
import ArchiveScript.Source.Span
import ArchiveScript.Text.Blank
import ArchiveScript.Text.Integer
import ArchiveScript.Text.Json
import ArchiveScript.Text.Printable
import ArchiveScript.Text.Quoted
import ArchiveScript.Text.Size
import ArchiveScript.Text.Utf8
import ArchiveScript.Tree.Arena
import ArchiveScript.Tree.Kind
import ArchiveScript.Tree.Node
