import FlowTree.Analysis
import FlowTree.Assembly.Lexeme
import FlowTree.Assembly.Program
import FlowTree.Assembly.Token
import FlowTree.CommandLine.Flags
import FlowTree.CommandLine.Invocation
import FlowTree.CommandLine.Run
import FlowTree.Data.Base64
import FlowTree.Data.Basic
import FlowTree.Data.Json
import FlowTree.Data.MessagePack
import FlowTree.Data.Yaml.Character
import FlowTree.Data.Yaml.Content
import FlowTree.Data.Yaml.Cursor
import FlowTree.Data.Yaml.Node
import FlowTree.Data.Yaml.Plain
import FlowTree.Data.Yaml.Scalar
import FlowTree.Data.Yaml.Timestamp
import FlowTree.Data.Yaml.Token
import FlowTree.Data.Yaml.TokenStream
import FlowTree.Data.Yaml.Writer
import FlowTree.Diagnostic.Basic
import FlowTree.Diagnostic.Code
import FlowTree.Diagnostic.Report
import FlowTree.Diagnostic.Style
import FlowTree.Digraph.Dominators
import FlowTree.Digraph.Traversal
import FlowTree.Editor.Address
import FlowTree.Editor.Document
import FlowTree.Editor.Highlight
import FlowTree.Editor.Location
import FlowTree.Editor.Range
import FlowTree.Editor.Session
import FlowTree.Editor.Symbol
import FlowTree.Files
import FlowTree.Files.Disk
import FlowTree.FlowGraph.Basic
import FlowTree.FlowGraph.Build
import FlowTree.Function.Basic
import FlowTree.Function.Builder
import FlowTree.Function.Lowering
import FlowTree.Function.Names
import FlowTree.Instruction.Basic
import FlowTree.Instruction.Opcode
import FlowTree.Main
import FlowTree.Number.Double
import FlowTree.Number.Duration
import FlowTree.Proofs.Digraph.Dominance
import FlowTree.Proofs.Digraph.Dominators
import FlowTree.Proofs.Digraph.Links
import FlowTree.Proofs.Digraph.Paths
import FlowTree.Proofs.Digraph.Settling
import FlowTree.Proofs.Digraph.Tours
import FlowTree.Proofs.Digraph.Traversal
import FlowTree.Proofs.Editor.Documents
import FlowTree.Proofs.Editor.Reading
import FlowTree.Proofs.Editor.Ranges
import FlowTree.Proofs.FlowGraph.Dominance
import FlowTree.Proofs.FlowGraph.Layout
import FlowTree.Proofs.FlowGraph.Linked
import FlowTree.Proofs.FlowGraph.Reach
import FlowTree.Proofs.Nested.Constructs
import FlowTree.Proofs.Nested.Lowering
import FlowTree.Proofs.Nested.Program
import FlowTree.Proofs.Nested.RoundTrip
import FlowTree.Proofs.Nested.Setting
import FlowTree.Proofs.Nested.Switch
import FlowTree.Proofs.Reordering.Agreement
import FlowTree.Proofs.Reordering.BlockOrder
import FlowTree.Proofs.Reordering.Likeness
import FlowTree.Proofs.Reordering.Renumbering
import FlowTree.Proofs.Reordering.Runs
import FlowTree.Proofs.Sequences
import FlowTree.Proofs.Structuring.Cases
import FlowTree.Proofs.Structuring.Drawn
import FlowTree.Proofs.Structuring.Ends
import FlowTree.Proofs.Structuring.Nodes
import FlowTree.Proofs.Structuring.Places
import FlowTree.Proofs.Structuring.Rules
import FlowTree.Proofs.Structuring.Soundness
import FlowTree.Proofs.Structuring.Stepwise
import FlowTree.Proofs.Structuring.Totality
import FlowTree.Proofs.Tree.Accounts
import FlowTree.Proofs.Tree.Arena
import FlowTree.Proofs.Tree.Built
import FlowTree.Proofs.Tree.CaseOrder
import FlowTree.Proofs.Tree.Closure
import FlowTree.Proofs.Tree.Coverage
import FlowTree.Proofs.Tree.Emission
import FlowTree.Proofs.Tree.Exits
import FlowTree.Proofs.Tree.Explained
import FlowTree.Proofs.Tree.LooseEnds
import FlowTree.Proofs.Tree.Nesting
import FlowTree.Proofs.Tree.Placement
import FlowTree.Proofs.Tree.Shapes
import FlowTree.Proofs.Tree.Sketch
import FlowTree.Proofs.Tree.Transfers
import FlowTree.Proofs.Tree.Walk
import FlowTree.Repl
import FlowTree.Settings.Basic
import FlowTree.Settings.Sources
import FlowTree.Snapshot.Basic
import FlowTree.Snapshot.Format
import FlowTree.Snapshot.Unpacking
import FlowTree.Text.Bytes
import FlowTree.Text.Digits
import FlowTree.Text.EditDistance
import FlowTree.Text.Glyph
import FlowTree.Text.Integer
import FlowTree.Text.Lowercase
import FlowTree.Text.Printable
import FlowTree.Text.Quoted
import FlowTree.Text.Space
import FlowTree.Tree.Basic
import FlowTree.Tree.CaseOrder
import FlowTree.Tree.Exits
import FlowTree.Tree.Placement
import FlowTree.Tree.Printer
import FlowTree.Tree.Rejection
import FlowTree.Tree.Structuring
import FlowTree.Tree.Walk
import FlowTree.Proofs.FlowGraph.Grammar
import FlowTree.Proofs.Tree.Leaving
import FlowTree.Proofs.Tree.Succession
import FlowTree.Proofs.Structuring.Sight
import FlowTree.Proofs.Structuring.LineMarkers
import FlowTree.Proofs.Assembly.Pattern
import FlowTree.Proofs.Assembly.Lexing
import FlowTree.Proofs.Assembly.Grammar
import FlowTree.Proofs.Text.Quoting
import FlowTree.Proofs.Assembly.RoundTrip
import FlowTree.Proofs.Function.Naming
import FlowTree.Proofs.Function.Statements
import FlowTree.Proofs.Function.Segments
import FlowTree.Proofs.Text.Integers
import FlowTree.Proofs.Text.Utf8
import FlowTree.Proofs.Function.Disassembly
import FlowTree.Proofs.Data.MessagePack
import FlowTree.Proofs.Snapshot.RoundTrip
import FlowTree.Proofs.FlowGraph.BlockNames
import FlowTree.Proofs.Snapshot.Identity
import FlowTree.Proofs.Structuring.Fallthrough
import FlowTree.Proofs.Function.Allotment
import FlowTree.Proofs.Function.Calls
import FlowTree.Proofs.Function.Results
import FlowTree.Proofs.Analysis.Reports
import FlowTree.Proofs.Assembly.Extents
import FlowTree.Proofs.Editor.Highlights
import FlowTree.Proofs.Editor.Overlaps
import FlowTree.Proofs.Editor.Symbols
import FlowTree.Proofs.Text.EditDistance
import FlowTree.Proofs.Tree.Iteration
import FlowTree.Proofs.Tree.Arms
import FlowTree.Proofs.Tree.CompactForm
import FlowTree.Proofs.Digraph.DepthFirst
import FlowTree.Proofs.Digraph.Moments
import FlowTree.Proofs.Tree.Merging
import FlowTree.Proofs.Tree.History
