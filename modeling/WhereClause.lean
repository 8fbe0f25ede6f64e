import WhereClause.CommandLine.Arguments
import WhereClause.CommandLine.Explain
import WhereClause.CommandLine.Report
import WhereClause.CommandLine.Run
import WhereClause.CommandLine.Styled
import WhereClause.Assembly
import WhereClause.Calendar.Basic
import WhereClause.Calendar.Reader
import WhereClause.Cast
import WhereClause.Compiler
import WhereClause.DataType
import WhereClause.Dialect.Basic
import WhereClause.Dialect.Format
import WhereClause.Dialect.Kind
import WhereClause.Dialect.MySql
import WhereClause.Dialect.Placeholder
import WhereClause.Dialect.Postgres
import WhereClause.Dialect.Suffix
import WhereClause.Failure
import WhereClause.FilterSpec.Basic
import WhereClause.FilterSpec.Order
import WhereClause.FilterSpec.Reader
import WhereClause.FormEncoding
import WhereClause.Json.Basic
import WhereClause.Json.Reader
import WhereClause.Json.Scan
import WhereClause.Json.Writer
import WhereClause.Key
import WhereClause.KeyIndex
import WhereClause.Main
import WhereClause.Number.Binary
import WhereClause.Number.Decimal
import WhereClause.Number.Integer
import WhereClause.Number.Shortest
import WhereClause.Number.Style
import WhereClause.Operator
import WhereClause.Params
import WhereClause.Parsing
import WhereClause.Rendering
import WhereClause.ReservedKeys
import WhereClause.Settings
import WhereClause.Sql
import WhereClause.Term
import WhereClause.Text.Ascii
import WhereClause.Text.Blank
import WhereClause.Text.Quoted
import WhereClause.Text.Split
import WhereClause.Text.Utf8
import WhereClause.Toml.Basic
import WhereClause.Toml.Reader
import WhereClause.Toml.Scalar
import WhereClause.Toml.Scan
import WhereClause.Value
import WhereClause.Proofs.Flavour
import WhereClause.Proofs.Lexing
import WhereClause.Proofs.Parsed
import WhereClause.Proofs.CastReading
import WhereClause.Proofs.WellFormed
import WhereClause.Proofs.Outline
import WhereClause.Proofs.Layout
import WhereClause.Proofs.Tokens
import WhereClause.Proofs.Constants
import WhereClause.Proofs.Containment
import WhereClause.Proofs.Placeholders
import WhereClause.Proofs.Reference
import WhereClause.Proofs.OutlineWords
import WhereClause.Proofs.UniqueReading
import WhereClause.Proofs.Veiled
import WhereClause.Proofs.NormalTerms
import WhereClause.Proofs.Spelling
import WhereClause.Proofs.MySqlGrammar
import WhereClause.Proofs.MySqlSyntax
import WhereClause.Proofs.Keys
import WhereClause.Proofs.Requests
import WhereClause.Proofs.PlaceholderStyles
import WhereClause.Proofs.BlankColumns
import WhereClause.Proofs.RepeatedKeys
import WhereClause.Proofs.ColumnNeeds
import WhereClause.Proofs.IndexedTerms
import WhereClause.Proofs.OnePass
import WhereClause.Proofs.OrderExpressions
import WhereClause.Proofs.RequestFailures
import WhereClause.Proofs.ReservedRoles
import WhereClause.Proofs.Explanations
import WhereClause.Proofs.FormattedTerms
import WhereClause.Proofs.LookUps
import WhereClause.Proofs.KeyGrammar
import WhereClause.Proofs.TypeHints
import WhereClause.Proofs.ValueGrammar
import WhereClause.Proofs.BracesAndColons
import WhereClause.Proofs.DeclaredStrings
import WhereClause.Proofs.LiteralWords
import WhereClause.Proofs.Digits
import WhereClause.Proofs.PrintedScalars
import WhereClause.Proofs.EncodedText
import WhereClause.Proofs.DocumentPieces
import WhereClause.Proofs.Documents
import WhereClause.Proofs.FilterDocuments
import WhereClause.Proofs.OrderTexts
import WhereClause.Proofs.EncodedQueries
import WhereClause.Proofs.DocumentTokens
import WhereClause.Proofs.TokenReaders
import WhereClause.Proofs.DocumentTrees
import WhereClause.Proofs.BlindReaders
import WhereClause.Proofs.ValueReaders
import WhereClause.Proofs.ObjectDocuments
import WhereClause.Proofs.RevisedDocuments
