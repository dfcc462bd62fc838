import SpatialQuery.Bytes
import SpatialQuery.Calendar
import SpatialQuery.Calendar.Reading
import SpatialQuery.Catalog
import SpatialQuery.ColumnRef
import SpatialQuery.CommandLine.Command
import SpatialQuery.CommandLine.Form
import SpatialQuery.CommandLine.Run
import SpatialQuery.Database
import SpatialQuery.Database.Connection
import SpatialQuery.Database.ConnectionString
import SpatialQuery.Database.Execution
import SpatialQuery.Database.Inference
import SpatialQuery.Database.Result
import SpatialQuery.Decimal.Reading
import SpatialQuery.Decimal.Shortest
import SpatialQuery.Definition
import SpatialQuery.Definition.Compiled
import SpatialQuery.Definition.Encoding
import SpatialQuery.Definition.Filter
import SpatialQuery.Definition.Malformed
import SpatialQuery.Definition.Scope
import SpatialQuery.Definition.SelectList
import SpatialQuery.Environment
import SpatialQuery.GeoServer
import SpatialQuery.GeoServer.FeatureType
import SpatialQuery.Geometry
import SpatialQuery.Geometry.Column
import SpatialQuery.Geometry.Declared
import SpatialQuery.Geometry.Header
import SpatialQuery.Http
import SpatialQuery.Identifier
import SpatialQuery.IpAddress
import SpatialQuery.Json
import SpatialQuery.Json.Number
import SpatialQuery.Json.Printing
import SpatialQuery.Json.Reading
import SpatialQuery.Main
import SpatialQuery.Numeric
import SpatialQuery.Policy
import SpatialQuery.Proofs.Calendar.Days
import SpatialQuery.Proofs.Calendar.RoundTrip
import SpatialQuery.Proofs.Checks.Literals
import SpatialQuery.Proofs.Checks.Offsets
import SpatialQuery.Proofs.Checks.Placeholders
import SpatialQuery.Proofs.Checks.Probe
import SpatialQuery.Proofs.Checks.ReadOnly
import SpatialQuery.Proofs.Checks.Rewritten
import SpatialQuery.Proofs.Checks.Surrounded
import SpatialQuery.Proofs.Checks.Unions
import SpatialQuery.Proofs.Database.Capping
import SpatialQuery.Proofs.Database.Rows
import SpatialQuery.Proofs.Database.Sampling
import SpatialQuery.Proofs.Decimal.Nearest
import SpatialQuery.Proofs.Decimal.Plain
import SpatialQuery.Proofs.Decimal.Rounding
import SpatialQuery.Proofs.Decimal.Shortest
import SpatialQuery.Proofs.Definition.Compiled
import SpatialQuery.Proofs.Definition.Grouping
import SpatialQuery.Proofs.Definition.Parameters
import SpatialQuery.Proofs.Definition.Published
import SpatialQuery.Proofs.Definition.References
import SpatialQuery.Proofs.Definition.Reread
import SpatialQuery.Proofs.Definition.RoundTrip
import SpatialQuery.Proofs.Definition.Sanitized
import SpatialQuery.Proofs.Definition.Scopes
import SpatialQuery.Proofs.Definition.Shapes
import SpatialQuery.Proofs.Definition.Stored
import SpatialQuery.Proofs.Definition.Validated
import SpatialQuery.Proofs.Except
import SpatialQuery.Proofs.GeoServer.Answers
import SpatialQuery.Proofs.GeoServer.Revision
import SpatialQuery.Proofs.Geometry.Declared
import SpatialQuery.Proofs.Geometry.Headers
import SpatialQuery.Proofs.Geometry.Inference
import SpatialQuery.Proofs.Geometry.Result
import SpatialQuery.Proofs.Json.Range
import SpatialQuery.Proofs.Json.Records
import SpatialQuery.Proofs.Json.RoundTrip
import SpatialQuery.Proofs.Json.Scalars
import SpatialQuery.Proofs.Lexical.Agreement
import SpatialQuery.Proofs.Lexical.Bytewise
import SpatialQuery.Proofs.Lexical.Closing
import SpatialQuery.Proofs.Lexical.Numeral
import SpatialQuery.Proofs.Lexical.Plain
import SpatialQuery.Proofs.Lexical.Reading
import SpatialQuery.Proofs.Lexical.Rescan
import SpatialQuery.Proofs.Lexical.Rules
import SpatialQuery.Proofs.Lexical.Scanning
import SpatialQuery.Proofs.Lexical.Stepping
import SpatialQuery.Proofs.Lexical.Surrounding
import SpatialQuery.Proofs.Lexical.Tiling
import SpatialQuery.Proofs.Limit.Bound
import SpatialQuery.Proofs.Limit.Clause
import SpatialQuery.Proofs.Limit.First
import SpatialQuery.Proofs.Limit.Fixed
import SpatialQuery.Proofs.Limit.Literal
import SpatialQuery.Proofs.Limit.Plan
import SpatialQuery.Proofs.Limit.Rewritten
import SpatialQuery.Proofs.Limit.Statement
import SpatialQuery.Proofs.Meaning.Filter
import SpatialQuery.Proofs.Meaning.Matching
import SpatialQuery.Proofs.Meaning.Predicates
import SpatialQuery.Proofs.Meaning.Rereading
import SpatialQuery.Proofs.Meaning.Syntax
import SpatialQuery.Proofs.Meaning.Truth
import SpatialQuery.Proofs.Meaning.Written
import SpatialQuery.Proofs.Naming.Outputs
import SpatialQuery.Proofs.Naming.Rule
import SpatialQuery.Proofs.Naming.Statements
import SpatialQuery.Proofs.Numeric.Decoding
import SpatialQuery.Proofs.Numeric.Digits
import SpatialQuery.Proofs.Numeric.Groups
import SpatialQuery.Proofs.Numeric.RoundTrip
import SpatialQuery.Proofs.Numeric.Texts
import SpatialQuery.Proofs.Policy.AllowList
import SpatialQuery.Proofs.Query.Bindings
import SpatialQuery.Proofs.Query.Embedding
import SpatialQuery.Proofs.Query.Groups
import SpatialQuery.Proofs.Query.Items
import SpatialQuery.Proofs.Query.Nested
import SpatialQuery.Proofs.Query.Occurrences
import SpatialQuery.Proofs.Query.Reported
import SpatialQuery.Proofs.Query.Scopes
import SpatialQuery.Proofs.Query.Search
import SpatialQuery.Proofs.Query.Shadowing
import SpatialQuery.Proofs.Query.Syntax
import SpatialQuery.Proofs.Query.Words
import SpatialQuery.Proofs.Rendering.Checks
import SpatialQuery.Proofs.Rendering.Expressions
import SpatialQuery.Proofs.Rendering.Fragments
import SpatialQuery.Proofs.Rendering.Limits
import SpatialQuery.Proofs.Rendering.Outlines
import SpatialQuery.Proofs.Rendering.Queries
import SpatialQuery.Proofs.Rendering.Statements
import SpatialQuery.Proofs.Rendering.Supplied
import SpatialQuery.Proofs.Rendering.Values
import SpatialQuery.Proofs.Service.Outcomes
import SpatialQuery.Proofs.Service.Runs
import SpatialQuery.Proofs.Store.History
import SpatialQuery.Proofs.Store.Kept
import SpatialQuery.Proofs.Store.Loading
import SpatialQuery.Proofs.Store.Order
import SpatialQuery.Proofs.Store.Runs
import SpatialQuery.Proofs.Text.Slices
import SpatialQuery.Proofs.Url.Paths
import SpatialQuery.Proofs.Value.Narrowest
import SpatialQuery.Proofs.View.Filled
import SpatialQuery.Proofs.View.Filling
import SpatialQuery.Proofs.View.Identity
import SpatialQuery.Proofs.View.Replacement
import SpatialQuery.Proofs.View.Soundness
import SpatialQuery.Proofs.View.Substitution
import SpatialQuery.Proofs.View.Values
import SpatialQuery.Relation
import SpatialQuery.Relation.Reads
import SpatialQuery.Service
import SpatialQuery.Service.Registry
import SpatialQuery.Settings
import SpatialQuery.Sql.Fragment
import SpatialQuery.Sql.Predicate
import SpatialQuery.Sql.Select
import SpatialQuery.SqlType
import SpatialQuery.Statement
import SpatialQuery.Store
import SpatialQuery.Store.Document
import SpatialQuery.Store.File
import SpatialQuery.Suggestion
import SpatialQuery.Text.Base64
import SpatialQuery.Text.Blank
import SpatialQuery.Text.Boolean
import SpatialQuery.Text.Case
import SpatialQuery.Text.CaseTable
import SpatialQuery.Text.Integer
import SpatialQuery.Text.Quoted
import SpatialQuery.Token
import SpatialQuery.Token.Scan
import SpatialQuery.Url
import SpatialQuery.Url.Host
import SpatialQuery.Url.Percent
import SpatialQuery.Url.Punycode
import SpatialQuery.Url.Reading
import SpatialQuery.Uuid
import SpatialQuery.Validation
import SpatialQuery.Validation.Checks
import SpatialQuery.Validation.Limit
import SpatialQuery.Validation.Verdict
import SpatialQuery.Value
import SpatialQuery.Value.Binding
import SpatialQuery.Value.Reading
import SpatialQuery.View
import SpatialQuery.View.Error
import SpatialQuery.View.Template
