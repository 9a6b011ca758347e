import TableQuery.Calendar.Date
import TableQuery.Calendar.DateTime
import TableQuery.Calendar.Text
import TableQuery.Cell
import TableQuery.ColumnType
import TableQuery.Decimal.Binary64
import TableQuery.Decimal.Digits
import TableQuery.Decimal.Numeral
import TableQuery.Decimal.Shortest
import TableQuery.Engine
import TableQuery.Expansion
import TableQuery.Failure
import TableQuery.Http
import TableQuery.Json.Basic
import TableQuery.Json.Reader
import TableQuery.Json.Record
import TableQuery.Json.Writer
import TableQuery.NameMap
import TableQuery.Plan
import TableQuery.Predicate
import TableQuery.Request.Condition
import TableQuery.Request.Decode
import TableQuery.Request.Filter
import TableQuery.Request.Operator
import TableQuery.Request.Order
import TableQuery.Request.Params
import TableQuery.Request.Window
import TableQuery.Response
import TableQuery.Row
import TableQuery.Schema.Form
import TableQuery.Schema.Problem
import TableQuery.Schema.Registry
import TableQuery.Schema.Table
import TableQuery.Settings
import TableQuery.Source.Fetch
import TableQuery.Source.Memory
import TableQuery.Source.Ordering
import TableQuery.Sql.Database
import TableQuery.Sql.Evaluation
import TableQuery.Sql.Expression
import TableQuery.Sql.Statement
import TableQuery.Sql.Text
import TableQuery.Target
import TableQuery.Text.Ascii
import TableQuery.Text.Blank
import TableQuery.Text.Percent
import TableQuery.Text.Split
import TableQuery.Text.Utf8
import TableQuery.Uuid
import TableQuery.Value.Basic
import TableQuery.Value.Json
import TableQuery.Value.Text
import TableQuery.Proofs.Text.Trimming
import TableQuery.Proofs.Schema.Soundness
import TableQuery.Proofs.Value.Comparison
import TableQuery.Proofs.Rows.Projection
import TableQuery.Proofs.Rows.Arrangement
import TableQuery.Proofs.Request.Selection
import TableQuery.Proofs.Calendar.RoundTrip
import TableQuery.Proofs.Calendar.Blanks
import TableQuery.Proofs.Calendar.Layouts
import TableQuery.Proofs.Json.Strings
import TableQuery.Proofs.Request.Planning
import TableQuery.Proofs.Source.Runs
import TableQuery.Proofs.Value.RoundTrip
import TableQuery.Proofs.Engine.Expansion
import TableQuery.Proofs.Engine.Listing
import TableQuery.Proofs.Query.Typing
import TableQuery.Proofs.Engine.Questions
import TableQuery.Proofs.Calendar.TextOrder
import TableQuery.Proofs.Sql.Storage
import TableQuery.Proofs.Sql.Junctions
import TableQuery.Proofs.Sql.Truth
import TableQuery.Proofs.Sql.StoredOrder
import TableQuery.Proofs.Sql.Windows
import TableQuery.Proofs.Sql.Execution
import TableQuery.Proofs.Engine.Parity
import TableQuery.Proofs.Request.Grammar
import TableQuery.Proofs.Request.Merging
import TableQuery.Proofs.Rows.Distinct
import TableQuery.Proofs.Engine.StorageOrder
import TableQuery.Proofs.Request.Insertion
import TableQuery.Proofs.Value.RequestText
import TableQuery.Proofs.Engine.Nested
import TableQuery.Proofs.Request.Entries
import TableQuery.Proofs.Request.Pages
import TableQuery.Proofs.Engine.Separation
import TableQuery.Proofs.Engine.Steps
import TableQuery.Proofs.Engine.Totals
import TableQuery.Proofs.Engine.Tiling
import TableQuery.Proofs.Engine.Interference
import TableQuery.Proofs.Engine.Routes
import TableQuery.Proofs.Request.Faults
import TableQuery.Proofs.Engine.Refusal
import TableQuery.Proofs.Sql.Rendering
import TableQuery.Proofs.Engine.MemoryFailures
import TableQuery.Proofs.Sql.Placeholders
import TableQuery.Proofs.Response.RoundTrip
import TableQuery.Proofs.Schema.Validation
import TableQuery.Proofs.Schema.Naming
import TableQuery.Proofs.Schema.Linking
import TableQuery.Proofs.Engine.Converse
import TableQuery.Proofs.Request.Opposites
import TableQuery.Proofs.Engine.Partition
import TableQuery.Proofs.Engine.Lookup
import TableQuery.Proofs.Query.NormalForm
import TableQuery.Proofs.Engine.RelatedQuestions
import TableQuery.Proofs.Decimal.Rounding
import TableQuery.Proofs.Decimal.Units
import TableQuery.Proofs.Decimal.Interval
import TableQuery.Proofs.Decimal.Shortest
import TableQuery.Proofs.Decimal.Layout
import TableQuery.Proofs.Value.Transitivity
import TableQuery.Proofs.Engine.Matching
import TableQuery.Proofs.Request.Recognised
import TableQuery.Proofs.Request.Spellings
import TableQuery.Proofs.Rows.Preorder
import TableQuery.Proofs.Rows.Transparency
import TableQuery.Proofs.Request.Completion
