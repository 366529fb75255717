import PageMarkup.Text.Blank
import PageMarkup.Source
import PageMarkup.Number.Shortest
import PageMarkup.Number.Numeral
import PageMarkup.KeyMap
import PageMarkup.Parsing.Combinators
import PageMarkup.Parsing.Rule
import PageMarkup.Diagnostic.Basic
import PageMarkup.Diagnostic.Report
import PageMarkup.Document.AttrValue
import PageMarkup.Document.Grammar
import PageMarkup.Json.Basic
import PageMarkup.Json.Reader
import PageMarkup.Json.Writer
import PageMarkup.Diagnostic.Exchange
import PageMarkup.Document.AttrValueJson
import PageMarkup.Compiler
import PageMarkup.Text.Units16
import PageMarkup.Command.Arguments
import PageMarkup.Command.FileTree
import PageMarkup.Command.Path
import PageMarkup.Command.Run
import PageMarkup.Main
import PageMarkup.Proofs.KeyMap
import PageMarkup.Proofs.Text.Runs
import PageMarkup.Proofs.Text.Cuts
import PageMarkup.Proofs.Text.ByteOrder
import PageMarkup.Proofs.Number.Lexeme
import PageMarkup.Proofs.Number.Rounding
import PageMarkup.Proofs.Number.Printing
import PageMarkup.Proofs.Number.Shortest
import PageMarkup.Proofs.Parsing.Primitives
import PageMarkup.Proofs.Number.RoundTrip
import PageMarkup.Proofs.Json.RoundTrip
import PageMarkup.Proofs.Parsing.Repetition
import PageMarkup.Proofs.Parsing.Progress
import PageMarkup.Proofs.Parsing.Cursor
import PageMarkup.Proofs.Parsing.Ending
import PageMarkup.Proofs.Parsing.Choice
import PageMarkup.Proofs.Parsing.Agreement
import PageMarkup.Proofs.Written.Basic
import PageMarkup.Proofs.Written.Positions
import PageMarkup.Proofs.Written.Attributes
import PageMarkup.Proofs.Written.Reading
import PageMarkup.Proofs.Written.Broken
import PageMarkup.Proofs.Written.Rejecting
import PageMarkup.Proofs.Written.Coverage
import PageMarkup.Proofs.Document.Progress
import PageMarkup.Proofs.Written.Limit
import PageMarkup.Proofs.Written.Decided
import PageMarkup.Proofs.Written.Unclosed
import PageMarkup.Proofs.Written.Mismatched
import PageMarkup.Proofs.Written.Values
import PageMarkup.Proofs.Layout.Basic
import PageMarkup.Proofs.Layout.Document
import PageMarkup.Proofs.Schema.Names
import PageMarkup.Proofs.Schema.Session
import PageMarkup.Proofs.Refinement.Basic
import PageMarkup.Proofs.Refinement.Reports
import PageMarkup.Proofs.Refinement.Violations
import PageMarkup.Proofs.Refinement.Tree
import PageMarkup.Proofs.Refinement.Complaints
import PageMarkup.Proofs.Refinement.Reordering
import PageMarkup.Proofs.Html.Escaping
import PageMarkup.Proofs.Html.Denotation
import PageMarkup.Proofs.Html.Fragment
import PageMarkup.Proofs.Html.Generation
import PageMarkup.Proofs.Html.Styles
import PageMarkup.Proofs.Shift.Basic
import PageMarkup.Proofs.Shift.Concatenation
import PageMarkup.Proofs.Shift.Parsing
import PageMarkup.Proofs.Diagnostic.Template
import PageMarkup.Proofs.Diagnostic.Pieces
import PageMarkup.Proofs.Diagnostic.Location
import PageMarkup.Proofs.Diagnostic.Units16
import PageMarkup.Proofs.Diagnostic.Tiers
import PageMarkup.Proofs.Diagnostic.Lines
import PageMarkup.Proofs.Diagnostic.Position
import PageMarkup.Proofs.Html.Dimensions
import PageMarkup.Proofs.Command.Path
import PageMarkup.Proofs.Command.FileTree
import PageMarkup.Proofs.Command.Contract
import PageMarkup.Proofs.Command.Overwriting
import PageMarkup.Proofs.Command.Exchange
