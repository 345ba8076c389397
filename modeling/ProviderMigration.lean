import ProviderMigration.Builtin.DnsRecord
import ProviderMigration.Builtin.List
import ProviderMigration.Builtin.Table
import ProviderMigration.Builtin.TieredCache
import ProviderMigration.CommandLine.Invocation
import ProviderMigration.CommandLine.Outcome
import ProviderMigration.CommandLine.Parameter
import ProviderMigration.Context
import ProviderMigration.Data.Counted
import ProviderMigration.Data.Sha256
import ProviderMigration.Data.SortedMap
import ProviderMigration.Error
import ProviderMigration.Error.Log
import ProviderMigration.File.Discovery
import ProviderMigration.File.Path
import ProviderMigration.File.Tree
import ProviderMigration.Hcl.Block.Derive
import ProviderMigration.Hcl.Body
import ProviderMigration.Hcl.Body.Edit
import ProviderMigration.Hcl.Diagnostic
import ProviderMigration.Hcl.Expr
import ProviderMigration.Hcl.Parser.Body
import ProviderMigration.Hcl.Parser.Cursor
import ProviderMigration.Hcl.Parser.Expr
import ProviderMigration.Hcl.Printer.Body
import ProviderMigration.Hcl.Printer.Expr
import ProviderMigration.Hcl.Reference
import ProviderMigration.Hcl.Span
import ProviderMigration.Hcl.SyntaxError
import ProviderMigration.Hcl.Template.Enclosure
import ProviderMigration.Hcl.Template.Quote
import ProviderMigration.Hcl.Template.Segment
import ProviderMigration.Hcl.Token
import ProviderMigration.Hcl.Token.Lexer
import ProviderMigration.Json.Coerce
import ProviderMigration.Json.Field
import ProviderMigration.Json.Path
import ProviderMigration.Json.Printer
import ProviderMigration.Json.Reader
import ProviderMigration.Json.Value
import ProviderMigration.Literal
import ProviderMigration.Main
import ProviderMigration.Merge.Collection
import ProviderMigration.Merge.Config
import ProviderMigration.Merge.Item
import ProviderMigration.Merge.Rule
import ProviderMigration.Merge.State
import ProviderMigration.Migration.Config
import ProviderMigration.Migration.Engine
import ProviderMigration.Migration.State
import ProviderMigration.Migrator
import ProviderMigration.Number.Binary64
import ProviderMigration.Number.Decimal
import ProviderMigration.Number.Word
import ProviderMigration.Proofs.Data.Except
import ProviderMigration.Proofs.Data.List
import ProviderMigration.Proofs.Data.SortedMap
import ProviderMigration.Proofs.Error.Log
import ProviderMigration.Proofs.File.Discovery
import ProviderMigration.Proofs.File.Path
import ProviderMigration.Proofs.File.Search
import ProviderMigration.Proofs.File.Tree
import ProviderMigration.Proofs.Hcl.Body
import ProviderMigration.Proofs.Hcl.Boundary
import ProviderMigration.Proofs.Hcl.Comment
import ProviderMigration.Proofs.Hcl.Content
import ProviderMigration.Proofs.Hcl.Derivation
import ProviderMigration.Proofs.Hcl.Edits
import ProviderMigration.Proofs.Hcl.Fields
import ProviderMigration.Proofs.Hcl.Grammar
import ProviderMigration.Proofs.Hcl.Heredoc
import ProviderMigration.Proofs.Hcl.Keys
import ProviderMigration.Proofs.Hcl.Layout
import ProviderMigration.Proofs.Hcl.Parser.Body
import ProviderMigration.Proofs.Hcl.Parser.Bracket
import ProviderMigration.Proofs.Hcl.Parser.Choice
import ProviderMigration.Proofs.Hcl.Parser.Comment
import ProviderMigration.Proofs.Hcl.Parser.Descent
import ProviderMigration.Proofs.Hcl.Parser.Expr
import ProviderMigration.Proofs.Hcl.Parser.Locality
import ProviderMigration.Proofs.Hcl.Parser.Operator
import ProviderMigration.Proofs.Hcl.Parser.Reading
import ProviderMigration.Proofs.Hcl.Parser.Recursion
import ProviderMigration.Proofs.Hcl.Parser.Rule
import ProviderMigration.Proofs.Hcl.Parser.Shape
import ProviderMigration.Proofs.Hcl.Parser.Termination
import ProviderMigration.Proofs.Hcl.Parser.WellFormed
import ProviderMigration.Proofs.Hcl.Passage
import ProviderMigration.Proofs.Hcl.Printer.Alignment
import ProviderMigration.Proofs.Hcl.Printer.Body
import ProviderMigration.Proofs.Hcl.Printer.Bracket
import ProviderMigration.Proofs.Hcl.Printer.Column
import ProviderMigration.Proofs.Hcl.Printer.Expr
import ProviderMigration.Proofs.Hcl.Printer.Operator
import ProviderMigration.Proofs.Hcl.Printer.Step
import ProviderMigration.Proofs.Hcl.Quoting
import ProviderMigration.Proofs.Hcl.ReadBack
import ProviderMigration.Proofs.Hcl.Reference
import ProviderMigration.Proofs.Hcl.Renaming
import ProviderMigration.Proofs.Hcl.Respelling.Body
import ProviderMigration.Proofs.Hcl.Respelling.Cursor
import ProviderMigration.Proofs.Hcl.Respelling.Directive
import ProviderMigration.Proofs.Hcl.Respelling.Enclosure
import ProviderMigration.Proofs.Hcl.Respelling.Expr
import ProviderMigration.Proofs.Hcl.Respelling.Line
import ProviderMigration.Proofs.Hcl.Respelling.Segment
import ProviderMigration.Proofs.Hcl.Respelling.Text
import ProviderMigration.Proofs.Hcl.Respelling.Token
import ProviderMigration.Proofs.Hcl.Respelling.Tree
import ProviderMigration.Proofs.Hcl.Roots
import ProviderMigration.Proofs.Hcl.Shape
import ProviderMigration.Proofs.Hcl.Span
import ProviderMigration.Proofs.Hcl.Template.Enclosure
import ProviderMigration.Proofs.Hcl.Template.Quote
import ProviderMigration.Proofs.Hcl.Token.Append
import ProviderMigration.Proofs.Hcl.Token.Comment
import ProviderMigration.Proofs.Hcl.Token.Lexer
import ProviderMigration.Proofs.Hcl.Token.Place
import ProviderMigration.Proofs.Hcl.Token.Tiling
import ProviderMigration.Proofs.Json.Coerce
import ProviderMigration.Proofs.Json.Field
import ProviderMigration.Proofs.Json.Flattening
import ProviderMigration.Proofs.Json.Order
import ProviderMigration.Proofs.Json.Path
import ProviderMigration.Proofs.Json.Reader
import ProviderMigration.Proofs.Json.Value
import ProviderMigration.Proofs.Literal
import ProviderMigration.Proofs.Merge.Collection
import ProviderMigration.Proofs.Merge.Concatenation
import ProviderMigration.Proofs.Merge.Config
import ProviderMigration.Proofs.Merge.Dependencies
import ProviderMigration.Proofs.Merge.Fate
import ProviderMigration.Proofs.Merge.Hygiene
import ProviderMigration.Proofs.Merge.Instances
import ProviderMigration.Proofs.Merge.Item
import ProviderMigration.Proofs.Merge.Loops
import ProviderMigration.Proofs.Merge.Merged
import ProviderMigration.Proofs.Merge.Repeat
import ProviderMigration.Proofs.Merge.Result
import ProviderMigration.Proofs.Merge.Retargeting
import ProviderMigration.Proofs.Merge.State
import ProviderMigration.Proofs.Migration.Agreement
import ProviderMigration.Proofs.Migration.Block
import ProviderMigration.Proofs.Migration.Builtin
import ProviderMigration.Proofs.Migration.Config
import ProviderMigration.Proofs.Migration.ConfigRepeat
import ProviderMigration.Proofs.Migration.Dependencies
import ProviderMigration.Proofs.Migration.Instance
import ProviderMigration.Proofs.Migration.Isolation
import ProviderMigration.Proofs.Migration.ItemFields
import ProviderMigration.Proofs.Migration.KeyOrder
import ProviderMigration.Proofs.Migration.Module
import ProviderMigration.Proofs.Migration.RecordContent
import ProviderMigration.Proofs.Migration.Roles
import ProviderMigration.Proofs.Migration.Splice
import ProviderMigration.Proofs.Migration.State
import ProviderMigration.Proofs.Migration.StateItems
import ProviderMigration.Proofs.Migration.StateRepeat
import ProviderMigration.Proofs.Migration.Successor
import ProviderMigration.Proofs.Migration.TieredCache
import ProviderMigration.Proofs.Migration.Unregistered
import ProviderMigration.Proofs.Migration.View
import ProviderMigration.Proofs.Recovery.Action
import ProviderMigration.Proofs.Recovery.Backup
import ProviderMigration.Proofs.Recovery.Cleanup
import ProviderMigration.Proofs.Recovery.FreshPath
import ProviderMigration.Proofs.Recovery.SavedFiles
import ProviderMigration.Proofs.Recovery.Session
import ProviderMigration.Proofs.Registry
import ProviderMigration.Proofs.Run.Attempts
import ProviderMigration.Proofs.Run.ContinueOnError
import ProviderMigration.Proofs.Run.DryRun
import ProviderMigration.Proofs.Run.Items
import ProviderMigration.Proofs.Run.Restored
import ProviderMigration.Proofs.Table
import ProviderMigration.Proofs.Text.Join
import ProviderMigration.Recovery.Action
import ProviderMigration.Recovery.Backup
import ProviderMigration.Recovery.Recoverer
import ProviderMigration.Registry
import ProviderMigration.Run.Config
import ProviderMigration.Run.Job
import ProviderMigration.Run.Outcome
import ProviderMigration.Run.Report
import ProviderMigration.Table
import ProviderMigration.Text.Blank
import ProviderMigration.Text.Bytes
import ProviderMigration.Text.Class
import ProviderMigration.Text.Join
import ProviderMigration.Text.Quoted
import ProviderMigration.Text.Utf8
import ProviderMigration.Text.Word
