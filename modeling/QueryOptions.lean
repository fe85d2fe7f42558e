import QueryOptions.Bytes
import QueryOptions.Compile
import QueryOptions.Config
import QueryOptions.Count
import QueryOptions.Error
import QueryOptions.Expand.Basic
import QueryOptions.Expand.Parser
import QueryOptions.Factory
import QueryOptions.Filter.Basic
import QueryOptions.Filter.Comparison
import QueryOptions.Filter.Literal
import QueryOptions.Filter.Merge
import QueryOptions.Filter.Operator
import QueryOptions.Filter.Parser
import QueryOptions.Filter.Printer
import QueryOptions.Json.Basic
import QueryOptions.Json.Reader
import QueryOptions.Json.Record
import QueryOptions.Json.Writer
import QueryOptions.Key.Encoding
import QueryOptions.Key.Fnv
import QueryOptions.Number.Binary64
import QueryOptions.Number.Hexadecimal
import QueryOptions.Number.Integer
import QueryOptions.Number.Rounding
import QueryOptions.Number.Shortest
import QueryOptions.Options.Basic
import QueryOptions.Options.Check
import QueryOptions.Options.Descent
import QueryOptions.OrderBy
import QueryOptions.Proofs.Expand.Tree
import QueryOptions.Proofs.Factory
import QueryOptions.Proofs.Filter.Acceptance
import QueryOptions.Proofs.Filter.Grammar
import QueryOptions.Proofs.Filter.Literal
import QueryOptions.Proofs.Filter.RoundTrip
import QueryOptions.Proofs.Filter.Spelling
import QueryOptions.Proofs.Filter.Tree
import QueryOptions.Proofs.Json.Scalar
import QueryOptions.Proofs.Key.Unambiguous
import QueryOptions.Proofs.Memory
import QueryOptions.Proofs.Number.Decimal
import QueryOptions.Proofs.Outcome
import QueryOptions.Proofs.Schema.Catalog
import QueryOptions.Proofs.Text.Word
import QueryOptions.Proofs.Validation
import QueryOptions.Proofs.Whitelist
import QueryOptions.Request.Form
import QueryOptions.Request.Params
import QueryOptions.Schema.Catalog
import QueryOptions.Schema.Definition
import QueryOptions.Schema.Name
import QueryOptions.Schema.Provider
import QueryOptions.Schema.Registry
import QueryOptions.Select
import QueryOptions.Text.Alphanumeric
import QueryOptions.Text.Blank
import QueryOptions.Text.CommaList
import QueryOptions.Text.Fault
import QueryOptions.Text.Offset
import QueryOptions.Text.Quoting
import QueryOptions.Text.Range
import QueryOptions.Text.Split
import QueryOptions.Text.Utf8
import QueryOptions.Text.Word
import QueryOptions.Validation
import QueryOptions.Value
import QueryOptions.Proofs.Creation
import QueryOptions.Proofs.Violations
import QueryOptions.Proofs.Number.Rounding
import QueryOptions.Proofs.Resolution
import QueryOptions.Proofs.Filter.Rereading
import QueryOptions.Proofs.Filter.Escapes
import QueryOptions.Proofs.Filter.Faithfulness
import QueryOptions.Proofs.Text.Split
import QueryOptions.Proofs.Filter.Lexemes
import QueryOptions.Proofs.Filter.Enclosure
import QueryOptions.Proofs.Expand.Clause
import QueryOptions.Proofs.Bounds
import QueryOptions.Proofs.Expansion
import QueryOptions.Proofs.Descent
import QueryOptions.Proofs.Inheritance
import QueryOptions.Proofs.Memoization
import QueryOptions.Proofs.Text.Placement
import QueryOptions.Proofs.Filter.Placement
import QueryOptions.Proofs.Text.Pieces
import QueryOptions.Proofs.Expand.Placement
import QueryOptions.Proofs.PageLimit
import QueryOptions.Proofs.Refusals
import QueryOptions.Proofs.CallSequence
import QueryOptions.Proofs.Filter.LastWord
import QueryOptions.Proofs.Filter.Merge
import QueryOptions.Proofs.Renewal
import QueryOptions.Proofs.Filter.Admission
import QueryOptions.Proofs.Filter.Range
import QueryOptions.Proofs.Number.Order
import QueryOptions.Proofs.NumericDomain
import QueryOptions.Proofs.Key.Identity
import QueryOptions.Proofs.CommaList
import QueryOptions.Proofs.Filter.Threshold
import QueryOptions.Proofs.Json.Grammar
import QueryOptions.Proofs.Filter.QuoteStyle
import QueryOptions.Proofs.Expand.Composition
import QueryOptions.Schema.Index
import QueryOptions.Proofs.Schema.Name
import QueryOptions.Proofs.Schema.Index
import QueryOptions.Proofs.Key.Separation
import QueryOptions.Proofs.Filter.Shape
import QueryOptions.Proofs.IntegerLimits
