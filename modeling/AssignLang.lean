import AssignLang.Text.Basic
import AssignLang.Text.Ranges
import AssignLang.Text.Whitespace
import AssignLang.Text.Locate
import AssignLang.Text.Edit
import AssignLang.Text.Hidden
import AssignLang.Text.ZeroWidth
import AssignLang.Text.Wide
import AssignLang.Text.Width
import AssignLang.Text.Lines
import AssignLang.Text.Quoted
import AssignLang.Position
import AssignLang.Span
import AssignLang.Operator
import AssignLang.Kind
import AssignLang.Identifier
import AssignLang.Token
import AssignLang.Diagnostic
import AssignLang.Token.Cursor
import AssignLang.Token.Lexeme
import AssignLang.Token.Scan
import AssignLang.Tree
import AssignLang.Parse.State
import AssignLang.Parse.Value
import AssignLang.Parse.File
import AssignLang.Binary64
import AssignLang.Decimal
import AssignLang.Definition
import AssignLang.Check.Inference
import AssignLang.Config
import AssignLang.Check
import AssignLang.Analysis
import AssignLang.Completion
import AssignLang.QuickFix
import AssignLang.Toml.Value
import AssignLang.Toml.Blank
import AssignLang.Toml.Quoted
import AssignLang.Toml.Number
import AssignLang.Toml.DateTime
import AssignLang.Toml.Reader
import AssignLang.Toml.Document
import AssignLang.Config.Reader
import AssignLang.Render.Glyphs
import AssignLang.Render.Page
import AssignLang.Render.Window
import AssignLang.Render.Line
import AssignLang.Render.Report
import AssignLang.Proofs.Relocation
import AssignLang.Proofs.Parse.Moves
import AssignLang.Proofs.Parse.Frame
import AssignLang.Proofs.Parse.Statements
import AssignLang.Proofs.Parse.Derivation
import AssignLang.Proofs.Parse.Extent
import AssignLang.Proofs.Grammar
import AssignLang.Proofs.Token.Maximal
import AssignLang.Proofs.Token.Gap
import AssignLang.Proofs.Token.Layout
import AssignLang.Proofs.Spans
import AssignLang.Proofs.Recovery
import AssignLang.Proofs.Check.Inference
import AssignLang.Proofs.Check.Table
import AssignLang.Proofs.Typing
import AssignLang.Proofs.Check.Unused
import AssignLang.Proofs.Cut
import AssignLang.Proofs.QuickFix
import AssignLang.Proofs.Token.Tiling
import AssignLang.Proofs.Parse.Nesting
import AssignLang.Proofs.Positions
import AssignLang.Proofs.Parse.Renaming
import AssignLang.Proofs.Token.Exchange
import AssignLang.Proofs.Completion
import AssignLang.Proofs.Parse.Context
import AssignLang.Proofs.Parse.Splice
import AssignLang.Proofs.Token.Deletion
import AssignLang.Proofs.Removal
import AssignLang.Proofs.Parse.Order
import AssignLang.Proofs.Parse.Breakage
import AssignLang.Proofs.Scoping
import AssignLang.Proofs.Parse.Relocated
import AssignLang.Proofs.Spacing
import AssignLang.Proofs.RootCause
import AssignLang.Proofs.Offers
import AssignLang.Proofs.Parse.Demand
import AssignLang.Proofs.Anchors
import AssignLang.Proofs.Check.Spine
import AssignLang.Proofs.Locate
import AssignLang.Proofs.Naming
import AssignLang.Proofs.Edits
import AssignLang.Proofs.Parse.Precedence
import AssignLang.Proofs.Depth
import AssignLang.Proofs.Binary64.Word
import AssignLang.Proofs.Binary64.Rounding
import AssignLang.Proofs.Literals
