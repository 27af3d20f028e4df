import Stencil.Assignment
import Stencil.Builtin
import Stencil.CommandLine.Request
import Stencil.CommandLine.Run
import Stencil.Decimal.Shortest
import Stencil.Decimal.Text
import Stencil.Document.Basic
import Stencil.Document.Outline
import Stencil.Limits
import Stencil.Main
import Stencil.Parse.Basic
import Stencil.Parse.Document
import Stencil.Parse.Expression
import Stencil.Reader
import Stencil.Render.Basic
import Stencil.Render.Scope
import Stencil.Session
import Stencil.Slot.Basic
import Stencil.Slot.Demand
import Stencil.Slot.Unify
import Stencil.Template
import Stencil.Text.Blank
import Stencil.Text.Quoted
import Stencil.Text.Visible
import Stencil.Token.Basic
import Stencil.Token.Cursor
import Stencil.Token.Feed
import Stencil.Token.Lexeme
import Stencil.Toml.Context
import Stencil.Toml.Limits
import Stencil.Toml.Quotation
import Stencil.Toml.Read
import Stencil.Toml.Scalar
import Stencil.Toml.Tree
import Stencil.Value.Basic
import Stencil.Value.Number
import Stencil.Proofs.Except
import Stencil.Proofs.Slot.Accepts
import Stencil.Proofs.Slot.Demand
import Stencil.Proofs.Render.Parts
import Stencil.Proofs.Render.Soundness
import Stencil.Proofs.Parse.Simulation
import Stencil.Proofs.Parse.Ahead
import Stencil.Proofs.Document.Symbols
import Stencil.Proofs.Parse.Input
import Stencil.Proofs.Parse.Expression
import Stencil.Proofs.Parse.Document
import Stencil.Proofs.Parse.Grammar
import Stencil.Proofs.Document.Height
import Stencil.Proofs.Token.Spaced
import Stencil.Proofs.Parse.Height
import Stencil.Proofs.Render.Dependence
import Stencil.Proofs.Render.Necessity
import Stencil.Proofs.Token.Apart
import Stencil.Proofs.Token.Reads
import Stencil.Proofs.Document.Print
import Stencil.Proofs.Decimal.Numeral
import Stencil.Proofs.Document.Words
import Stencil.Proofs.Parse.RoundTrip
import Stencil.Proofs.Render.Verbatim
import Stencil.Proofs.Render.Operations
import Stencil.Proofs.Parse.Limits
import Stencil.Proofs.Token.Place
import Stencil.Proofs.Token.Coverage
import Stencil.Proofs.Token.Cut
import Stencil.Proofs.Parse.Cuts
import Stencil.Proofs.Text.Bytes
import Stencil.Proofs.Slot.Unify
import Stencil.Proofs.Slot.Uses
import Stencil.Proofs.Slot.Inference
import Stencil.Proofs.Render.Bindings
import Stencil.Proofs.Parse.Lines
import Stencil.Proofs.Parse.Body
import Stencil.Proofs.Parse.LineEnds
import Stencil.Proofs.Parse.Passed
import Stencil.Proofs.Parse.Begun
import Stencil.Proofs.Parse.Viable
import Stencil.Proofs.Parse.Blame
import Stencil.Proofs.Value.Integer
import Stencil.Proofs.Value.Multiple
import Stencil.Proofs.Value.Nearest
import Stencil.Proofs.Value.Double
import Stencil.Proofs.Value.Conversion
import Stencil.Proofs.Value.Extremes
import Stencil.Proofs.Render.Integers
import Stencil.Proofs.Parse.Depth
import Stencil.Proofs.Parse.TokenCount
import Stencil.Proofs.Parse.Calls
import Stencil.Proofs.Parse.Due
import Stencil.Proofs.Parse.LoopWord
import Stencil.Proofs.Document.Renaming
import Stencil.Proofs.Slot.Join
import Stencil.Proofs.Token.Scan
import Stencil.Proofs.Token.Literal
import Stencil.Proofs.Token.Blanks
import Stencil.Proofs.Document.Grouping
import Stencil.Proofs.Token.Failure
import Stencil.Proofs.Assignment
import Stencil.Proofs.Session
