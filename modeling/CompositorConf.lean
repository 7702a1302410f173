import CompositorConf.Catalog.Basic
import CompositorConf.Catalog.Lookup
import CompositorConf.Catalog.Standard
import CompositorConf.Catalog.Standard.Devices
import CompositorConf.Catalog.Standard.Keywords
import CompositorConf.Catalog.Standard.System
import CompositorConf.Catalog.Standard.Windows
import CompositorConf.Color.Basic
import CompositorConf.Color.Unit
import CompositorConf.CommandLine.Arguments
import CompositorConf.CommandLine.Report
import CompositorConf.Configuration
import CompositorConf.Document.Basic
import CompositorConf.Document.Encoding
import CompositorConf.Document.KeyValue
import CompositorConf.Document.Parser
import CompositorConf.Editor.Completion
import CompositorConf.Editor.Diagnostic
import CompositorConf.Editor.Encoding
import CompositorConf.Editor.Hover
import CompositorConf.Editor.Swatch
import CompositorConf.Editor.Symbol
import CompositorConf.Json.Basic
import CompositorConf.Json.Numeral
import CompositorConf.Json.Parser
import CompositorConf.Json.Printer
import CompositorConf.Json.Shape
import CompositorConf.Main
import CompositorConf.Number.Binary
import CompositorConf.Number.Decimal
import CompositorConf.Number.Notation
import CompositorConf.Number.Rounding
import CompositorConf.Number.Shortest
import CompositorConf.Position
import CompositorConf.Proofs.Document.Tree
import CompositorConf.Proofs.Text.Trimming
import CompositorConf.Server.Framing
import CompositorConf.Server.Message
import CompositorConf.Server.Opening
import CompositorConf.Server.Opening.Abilities
import CompositorConf.Server.Request
import CompositorConf.Server.Session
import CompositorConf.Table
import CompositorConf.Text.AsciiCase
import CompositorConf.Text.Blank
import CompositorConf.Text.Hex
import CompositorConf.Text.Line
import CompositorConf.Text.Measure
import CompositorConf.Text.Percent
import CompositorConf.Text.Utf8
import CompositorConf.Value.Basic
import CompositorConf.Value.Coercion
import CompositorConf.Value.Grammar
import CompositorConf.Value.Modifier
import CompositorConf.Workspace.Disk
import CompositorConf.Workspace.Documents
import CompositorConf.Workspace.Settings
import CompositorConf.Workspace.Uri
import CompositorConf.Proofs.Document.Line
import CompositorConf.Proofs.Document.Reading
import CompositorConf.Proofs.Document.Nesting
import CompositorConf.Proofs.Document.Scopes
import CompositorConf.Proofs.Document.Entries
import CompositorConf.Proofs.Document.Conservation
import CompositorConf.Proofs.Document.Spans
import CompositorConf.Proofs.Document.Laminar
import CompositorConf.Proofs.Document.Places
import CompositorConf.Proofs.Editor.Outline
import CompositorConf.Proofs.Text.Cursor
import CompositorConf.Proofs.Configuration
import CompositorConf.Proofs.Editor.KeyMeaning
import CompositorConf.Proofs.Sequence
import CompositorConf.Proofs.Configuration.Decoding
import CompositorConf.Proofs.Server.Freshness
import CompositorConf.Proofs.Text.Pieces
import CompositorConf.Proofs.Document.Masking
import CompositorConf.Proofs.Document.Comments
import CompositorConf.Proofs.Text.Slice
import CompositorConf.Proofs.Document.Matching
import CompositorConf.Proofs.Value.Stops
import CompositorConf.Proofs.Document.Fidelity
import CompositorConf.Proofs.Document.TreeOrder
import CompositorConf.Proofs.Catalog.Names
import CompositorConf.Proofs.Configuration.StatementOrder
import CompositorConf.Proofs.Configuration.CustomVariables
import CompositorConf.Proofs.Configuration.Redefinition
import CompositorConf.Proofs.Document.Enclosing
import CompositorConf.Proofs.Document.Setting
import CompositorConf.Proofs.Editor.KeyCompletion
import CompositorConf.Proofs.Workspace.History
import CompositorConf.Proofs.Server.Accounting
import CompositorConf.Proofs.Server.Hiding
import CompositorConf.Proofs.Color.Literal
import CompositorConf.Proofs.Value.Literals
import CompositorConf.Proofs.Value.Replacement
import CompositorConf.Proofs.Document.ValueSlot
import CompositorConf.Proofs.Document.Rewording
import CompositorConf.Proofs.Editor.TextEdits
import CompositorConf.Proofs.Editor.Repainting
import CompositorConf.Proofs.Editor.LineEndings
import CompositorConf.Proofs.Document.Closing
import CompositorConf.Proofs.Editor.CommentedLines
import CompositorConf.Proofs.Text.Bytes
import CompositorConf.Proofs.Value.Offsets
import CompositorConf.Proofs.Document.Offsets
import CompositorConf.Proofs.Document.Stack
import CompositorConf.Proofs.Editor.Offsets
import CompositorConf.Proofs.Document.Renumbering
import CompositorConf.Proofs.Document.Composition
import CompositorConf.Proofs.Number.Numerals
import CompositorConf.Proofs.Value.Overlap
import CompositorConf.Proofs.Value.Coercion
import CompositorConf.Proofs.Number.Rounding
import CompositorConf.Proofs.Color.Encoding
import CompositorConf.Proofs.Color.Decoding
import CompositorConf.Proofs.Value.Gradient
import CompositorConf.Proofs.Catalog.NameCase
import CompositorConf.Proofs.Document.NameCase
import CompositorConf.Proofs.Configuration.NameCase
import CompositorConf.Proofs.Catalog.Prefixes
import CompositorConf.Proofs.Configuration.Nesting
import CompositorConf.Proofs.Configuration.Unplaced
import CompositorConf.Proofs.Document.NestedText
import CompositorConf.Proofs.Document.Wrapping
import CompositorConf.Proofs.Value.Unplaced
import CompositorConf.Proofs.Catalog.Keywords
import CompositorConf.Proofs.Document.KeyValue
import CompositorConf.Proofs.Editor.SwatchOrder
import CompositorConf.Proofs.Editor.ColorCompletion
import CompositorConf.Proofs.Catalog.Outermost
import CompositorConf.Proofs.Editor.StatementHover
import CompositorConf.Proofs.Text.Utf8
import CompositorConf.Proofs.Text.Percent
import CompositorConf.Proofs.Workspace.FilePaths
import CompositorConf.Proofs.Text.Columns
import CompositorConf.Proofs.Document.Insertion
import CompositorConf.Proofs.Value.Modmask
import CompositorConf.Proofs.Number.Overflow
import CompositorConf.Proofs.Value.Finite
import CompositorConf.Proofs.Configuration.Finite
