import BlockLang.Number.Exact
import BlockLang.Number.Decimal
import BlockLang.Number.Text
import BlockLang.Span
import BlockLang.Expr.Basic
import BlockLang.Expr.Token
import BlockLang.Expr.ParseError
import BlockLang.Expr.Lexeme
import BlockLang.Expr.Parser
import BlockLang.Expr.Statement
import BlockLang.Code
import BlockLang.Expr.Value
import BlockLang.Expr.Eval
import BlockLang.Block.Basic
import BlockLang.Block.Label
import BlockLang.Program.Basic
import BlockLang.Program.Edit
import BlockLang.Record.Basic
import BlockLang.Catalog
import BlockLang.Run.Diagnostic
import BlockLang.Run.Basic
import BlockLang.Run.Buffer
import BlockLang.Workbench
import BlockLang.Toml.Value
import BlockLang.Toml.Writer
import BlockLang.Toml.Blank
import BlockLang.Toml.Quoted
import BlockLang.Toml.Key
import BlockLang.Toml.Scalar
import BlockLang.Toml.Node
import BlockLang.Toml.Reader
import BlockLang.Problem.Basic
import BlockLang.Problem.Toml
import BlockLang.Record.Toml
import BlockLang.ProgramFile
import BlockLang.TestFile
import BlockLang.FileTree
import BlockLang.TestSuite
import BlockLang.Dump.Basic
import BlockLang.Dump.Program
import BlockLang.CommandLine.Invocation
import BlockLang.CommandLine.Reply
import BlockLang.Main
import BlockLang.Proofs.Expr.Names
import BlockLang.Proofs.Run.Steps
import BlockLang.Proofs.Run.Counters
import BlockLang.Proofs.Run.Reports
import BlockLang.Proofs.Run.Interruption
import BlockLang.Proofs.Run.WellFormed
import BlockLang.Proofs.Run.Rollback
import BlockLang.Proofs.Expr.Grammar
import BlockLang.Proofs.Expr.Reads
import BlockLang.Proofs.Expr.Complete
import BlockLang.Proofs.Expr.Ends
import BlockLang.Proofs.Expr.Sound
import BlockLang.Proofs.Expr.Unambiguous
import BlockLang.Proofs.Expr.Visits
import BlockLang.Proofs.Expr.Accepted
import BlockLang.Proofs.Expr.Cuts
import BlockLang.Proofs.Run.Course
import BlockLang.Proofs.Run.Passes
import BlockLang.Proofs.Program.Lookup
import BlockLang.Proofs.Program.Unique
import BlockLang.Proofs.Program.Edits
import BlockLang.Proofs.Record.Fresh
import BlockLang.Proofs.Program.Session
import BlockLang.Proofs.Record.RoundTrip
import BlockLang.Proofs.Program.Untagged
import BlockLang.Proofs.Run.Cap
import BlockLang.Proofs.Run.Alike
import BlockLang.Proofs.Expr.Spelling
import BlockLang.Proofs.Expr.Layout
import BlockLang.Proofs.Expr.Failures
import BlockLang.Proofs.Expr.Parts
import BlockLang.Proofs.Expr.Spans
import BlockLang.Proofs.Expr.References
import BlockLang.Proofs.Run.Truthful
import BlockLang.Proofs.Run.Printing
import BlockLang.Proofs.Program.Initializer
import BlockLang.Proofs.Block.Slots
import BlockLang.Proofs.Program.Locks
import BlockLang.Proofs.Program.Modify
import BlockLang.Proofs.Program.Headers
import BlockLang.Proofs.Program.Invariants
import BlockLang.Proofs.Run.Guarded
import BlockLang.Proofs.Record.Canonical
import BlockLang.Proofs.Run.Append
import BlockLang.Proofs.Program.Renaming
import BlockLang.Proofs.Program.RenamedCalls
import BlockLang.Proofs.Record.Reloaded
import BlockLang.Proofs.Number.Rounding
import BlockLang.Proofs.Number.Nearest
import BlockLang.Proofs.Number.Packing
import BlockLang.Proofs.Number.Shortest
import BlockLang.Proofs.Number.Positional
import BlockLang.Proofs.Toml.Scalars
import BlockLang.Proofs.Toml.Strings
import BlockLang.Proofs.Toml.Lines
import BlockLang.Proofs.Toml.Documents
import BlockLang.Proofs.Toml.Drafts
import BlockLang.Proofs.Toml.RoundTrip
import BlockLang.Proofs.Record.Documents
import BlockLang.Proofs.Program.Addresses
import BlockLang.Proofs.Run.Checked
import BlockLang.Proofs.Run.Begins
import BlockLang.Proofs.Run.Breaks
import BlockLang.Proofs.Run.Wrapped
import BlockLang.Proofs.Toml.Prepended
import BlockLang.Proofs.CommandLine.Verdicts
import BlockLang.Proofs.Program.Rows
import BlockLang.Proofs.Program.Outlines
import BlockLang.Proofs.Program.Splices
import BlockLang.Proofs.Program.Removals
import BlockLang.Proofs.Program.Layers
import BlockLang.Proofs.Expr.Moved
import BlockLang.Proofs.Expr.Semicolons
import BlockLang.Proofs.Expr.Sequences
import BlockLang.Proofs.Expr.Abbreviations
import BlockLang.Proofs.Expr.Respelt
import BlockLang.Proofs.Run.Labels
import BlockLang.Proofs.Expr.Aliases
import BlockLang.Proofs.Number.Spacing
import BlockLang.Proofs.Number.Values
import BlockLang.Proofs.Number.Arithmetic
import BlockLang.Proofs.Number.Whole
import BlockLang.Proofs.Number.Halves
import BlockLang.Proofs.Problem.Solved
import BlockLang.Proofs.Expr.Numbers
import BlockLang.Proofs.Run.Initial
import BlockLang.Proofs.CommandLine.Keys
import BlockLang.Proofs.CommandLine.Expectations
import BlockLang.Proofs.CommandLine.Suites
import BlockLang.Proofs.CommandLine.ExitCodes
import BlockLang.Proofs.Expr.Pieces
import BlockLang.Proofs.Expr.Scanning
import BlockLang.Proofs.Number.Factorials
