import MarkupTree.OrderedMap
import MarkupTree.Decimal.Binary64
import MarkupTree.Decimal.Shortest
import MarkupTree.Decimal.Layout
import MarkupTree.Unicode.CodeRange
import MarkupTree.Unicode.Cased
import MarkupTree.Unicode.LowerCase
import MarkupTree.Unicode.Unprintable
import MarkupTree.Text.Lowercase
import MarkupTree.Text.Quoted
import MarkupTree.Text.Position
import MarkupTree.Scalar
import MarkupTree.Property
import MarkupTree.Node
import MarkupTree.Attribute
import MarkupTree.Render
import MarkupTree.Fault
import MarkupTree.Argument
import MarkupTree.Builder
import MarkupTree.Json.Value
import MarkupTree.Json.Text
import MarkupTree.Json.Mismatch
import MarkupTree.Json.Halt
import MarkupTree.Json.StringLiteral
import MarkupTree.Json.NumberLiteral
import MarkupTree.Json.Reader
import MarkupTree.Json.Skip
import MarkupTree.Json.Typed
import MarkupTree.Interchange.Encode
import MarkupTree.Interchange.Property
import MarkupTree.Interchange.Load
import MarkupTree.Interchange.Decode
import MarkupTree.Interchange.DecodeText
import MarkupTree.Report.Excerpt
import MarkupTree.Report.Mark
import MarkupTree.Report
import MarkupTree.Proofs.OrderedMap
import MarkupTree.Proofs.Json.Value
import MarkupTree.Proofs.Json.StringLiteral
import MarkupTree.Proofs.Json.NumberLiteral
import MarkupTree.Proofs.Json.Measure
import MarkupTree.Proofs.Json.Reader
import MarkupTree.Proofs.Outcome
import MarkupTree.Proofs.Tree
import MarkupTree.Proofs.Attribute
import MarkupTree.Proofs.Interchange.Property
import MarkupTree.Proofs.Interchange.Load
import MarkupTree.Proofs.Interchange.Canon
import MarkupTree.Proofs.Render
import MarkupTree.Proofs.Dedupe
import MarkupTree.Proofs.Markup
import MarkupTree.Proofs.Markup.Unique
import MarkupTree.Proofs.Interchange.Grammar
import MarkupTree.Proofs.Interchange.Accept
import MarkupTree.Proofs.Interchange.Faithful
import MarkupTree.Proofs.Interchange.Rendering
import MarkupTree.Proofs.Interchange.Decode
import MarkupTree.Proofs.Interchange.RoundTrip
import MarkupTree.Proofs.Interchange.Settled
import MarkupTree.Proofs.Interchange.Defect
import MarkupTree.Proofs.Interchange.Strict
import MarkupTree.Proofs.Interchange.Agree
import MarkupTree.Proofs.Decimal.Binary64
import MarkupTree.Proofs.Equality
import MarkupTree.Proofs.Interchange.Inclusion
import MarkupTree.Proofs.Json.Outline
import MarkupTree.Proofs.Interchange.Integer
import MarkupTree.Proofs.Builder
import MarkupTree.Proofs.Leafless
import MarkupTree.Proofs.Text.Position
import MarkupTree.Proofs.Json.Halt
import MarkupTree.Proofs.Interchange.ParseFault
import MarkupTree.Proofs.Decimal.Exact
import MarkupTree.Proofs.Scalar
import MarkupTree.Proofs.Argument
import MarkupTree.Proofs.Subtree
import MarkupTree.Proofs.Construction
import MarkupTree.Proofs.Decimal.Interval
import MarkupTree.Proofs.Decimal.Shortest
import MarkupTree.Proofs.Decimal.Rounding
import MarkupTree.Proofs.Decimal.Arithmetic
import MarkupTree.Proofs.Decimal.Layout
import MarkupTree.Proofs.Json.FloatText
import MarkupTree.Proofs.Json.Reread
import MarkupTree.Proofs.Interchange.Double
