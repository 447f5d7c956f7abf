import QueryWire.Binding
import QueryWire.Calendar.Date
import QueryWire.Calendar.IsoDate
import QueryWire.Calendar.Reader
import QueryWire.Calendar.Rfc3339
import QueryWire.Calendar.Timestamp
import QueryWire.Decimal.Binary64
import QueryWire.Decimal.Notation
import QueryWire.Decimal.Shortest
import QueryWire.Error
import QueryWire.Expr
import QueryWire.Expr.Equality
import QueryWire.Expr.Wire
import QueryWire.Function.Constant
import QueryWire.Function.Iteration
import QueryWire.Function.Several
import QueryWire.Function.Single
import QueryWire.Function.Variadic
import QueryWire.Host
import QueryWire.Json.Document
import QueryWire.Json.Layout
import QueryWire.Json.Number
import QueryWire.Json.Quoted
import QueryWire.Json.Tree
import QueryWire.Literal
import QueryWire.Members
import QueryWire.Pagination
import QueryWire.Path
import QueryWire.Proofs.Binding
import QueryWire.Proofs.Calendar.Acceptance
import QueryWire.Proofs.Calendar.Instant
import QueryWire.Proofs.Calendar.IsoDate
import QueryWire.Proofs.Calendar.Reader
import QueryWire.Proofs.Calendar.Rfc3339
import QueryWire.Proofs.Calendar.Spelling
import QueryWire.Proofs.Decimal.Notation
import QueryWire.Proofs.Decimal.Shortest
import QueryWire.Proofs.Expr.Document
import QueryWire.Proofs.Expr.Equality
import QueryWire.Proofs.Expr.Fields
import QueryWire.Proofs.Expr.Lossless
import QueryWire.Proofs.Expr.Map
import QueryWire.Proofs.Expr.Obtainable
import QueryWire.Proofs.Expr.Places
import QueryWire.Proofs.Expr.Reading
import QueryWire.Proofs.Expr.Shaped
import QueryWire.Proofs.Expr.Unambiguous
import QueryWire.Proofs.Expr.Unrepeated
import QueryWire.Proofs.Expr.WellFormed
import QueryWire.Proofs.Function.Variadic
import QueryWire.Proofs.Host.Compositional
import QueryWire.Proofs.Host.Content
import QueryWire.Proofs.Host.Document
import QueryWire.Proofs.Host.Leaves
import QueryWire.Proofs.Host.Map
import QueryWire.Proofs.Json.Collapse
import QueryWire.Proofs.Json.Completeness
import QueryWire.Proofs.Json.Equality
import QueryWire.Proofs.Json.Grammar
import QueryWire.Proofs.Json.Lexical
import QueryWire.Proofs.Json.Reader
import QueryWire.Proofs.Json.RoundTrip
import QueryWire.Proofs.Json.Scan
import QueryWire.Proofs.Json.Soundness
import QueryWire.Proofs.Members
import QueryWire.Proofs.Members.ByteOrder
import QueryWire.Proofs.Members.Replacement
import QueryWire.Proofs.Pagination
import QueryWire.Proofs.Path
import QueryWire.Proofs.Recipe.Congruent
import QueryWire.Proofs.Recipe.Hygiene
import QueryWire.Proofs.Recipe.Numbering
import QueryWire.Proofs.Recipe.Obtainable
import QueryWire.Proofs.Recipe.Occurrences
import QueryWire.Proofs.Recipe.Parallel
import QueryWire.Proofs.Recipe.Parametric
import QueryWire.Proofs.Recipe.Scoped
import QueryWire.Proofs.Recipe.Template
import QueryWire.Proofs.Request
import QueryWire.Proofs.Request.Layout
import QueryWire.Proofs.Result
import QueryWire.Proofs.Session
import QueryWire.Proofs.Symbol
import QueryWire.Proofs.Text.Base64
import QueryWire.Proofs.Text.Base64.Canonical
import QueryWire.Proofs.Text.Digits
import QueryWire.Proofs.Text.Utf8
import QueryWire.Proofs.Value.Bytes
import QueryWire.Proofs.Value.Date
import QueryWire.Proofs.Value.Tagged
import QueryWire.Proofs.Value.Time
import QueryWire.Recipe
import QueryWire.Recipe.Build
import QueryWire.Request
import QueryWire.Session
import QueryWire.Symbol
import QueryWire.Text.Base64
import QueryWire.Text.Blank
import QueryWire.Text.Digits
import QueryWire.Text.Utf8
import QueryWire.Value
