import SharedSheet.CellName
import SharedSheet.Content
import SharedSheet.Daemon.Address
import SharedSheet.Daemon.Arguments
import SharedSheet.Daemon.Disk
import SharedSheet.Daemon.Start
import SharedSheet.Formula.Basic
import SharedSheet.Formula.Eval
import SharedSheet.Formula.Lexing
import SharedSheet.Formula.Shape
import SharedSheet.Formula.Token
import SharedSheet.Json.Basic
import SharedSheet.Json.Fields
import SharedSheet.Json.Number
import SharedSheet.Json.Parser
import SharedSheet.Json.Token
import SharedSheet.Main
import SharedSheet.Number.Literal
import SharedSheet.Number.Shortest
import SharedSheet.RefGraph
import SharedSheet.Service.Controller
import SharedSheet.Service.Framing
import SharedSheet.Service.Registry
import SharedSheet.Service.Session
import SharedSheet.Settings.Basic
import SharedSheet.Settings.Document
import SharedSheet.Sheet.Basic
import SharedSheet.Sheet.Cell
import SharedSheet.Sheet.Cycle
import SharedSheet.Sheet.Edit
import SharedSheet.Sheet.Error
import SharedSheet.Sheet.Procedure
import SharedSheet.Sheet.Request
import SharedSheet.Sheet.Value
import SharedSheet.Storage.Database
import SharedSheet.Storage.DatabaseFile
import SharedSheet.Storage.Directory
import SharedSheet.Storage.Error
import SharedSheet.Storage.RecordText
import SharedSheet.Storage.Store
import SharedSheet.Storage.TextFiles
import SharedSheet.Table
import SharedSheet.Text.Basic
import SharedSheet.Text.Lines
import SharedSheet.Text.Printable
import SharedSheet.Text.Utf8
import SharedSheet.Toml.Basic
import SharedSheet.Toml.Reader
import SharedSheet.Toml.Scalar
import SharedSheet.Toml.Text
import SharedSheet.Wire.Message
import SharedSheet.Wire.Outcome
import SharedSheet.Wire.Request
import SharedSheet.Proofs.CellName
import SharedSheet.Proofs.Content
import SharedSheet.Proofs.Cycle
import SharedSheet.Proofs.Formula.Canonical
import SharedSheet.Proofs.Formula.Evaluation
import SharedSheet.Proofs.Formula.Grammar
import SharedSheet.Proofs.Formula.Lexing
import SharedSheet.Proofs.Json.Reading
import SharedSheet.Proofs.Number.Decimal
import SharedSheet.Proofs.Number.Double
import SharedSheet.Proofs.Number.Numeral
import SharedSheet.Proofs.Number.Rounding
import SharedSheet.Proofs.Number.Scientific
import SharedSheet.Proofs.Number.Shortest
import SharedSheet.Proofs.RefGraph
import SharedSheet.Proofs.RefGraph.EdgeSet
import SharedSheet.Proofs.Service.Attachment
import SharedSheet.Proofs.Service.Closing
import SharedSheet.Proofs.Service.Counting
import SharedSheet.Proofs.Service.Delivery
import SharedSheet.Proofs.Service.Framing
import SharedSheet.Proofs.Service.Isolation
import SharedSheet.Proofs.Service.Listing
import SharedSheet.Proofs.Service.Membership
import SharedSheet.Proofs.Service.OpenSheet
import SharedSheet.Proofs.Service.Queue
import SharedSheet.Proofs.Service.Replica
import SharedSheet.Proofs.Service.Routing
import SharedSheet.Proofs.Service.Serving
import SharedSheet.Proofs.Service.Steps
import SharedSheet.Proofs.Service.Upkeep
import SharedSheet.Proofs.Sheet.Acyclic
import SharedSheet.Proofs.Sheet.Change
import SharedSheet.Proofs.Sheet.Circular
import SharedSheet.Proofs.Sheet.Consistent
import SharedSheet.Proofs.Sheet.Contents
import SharedSheet.Proofs.Sheet.Effort
import SharedSheet.Proofs.Sheet.Frame
import SharedSheet.Proofs.Sheet.Lengths
import SharedSheet.Proofs.Sheet.Limits
import SharedSheet.Proofs.Sheet.Locality
import SharedSheet.Proofs.Sheet.Numbers
import SharedSheet.Proofs.Sheet.Restore
import SharedSheet.Proofs.Sheet.Retained
import SharedSheet.Proofs.Sheet.Revert
import SharedSheet.Proofs.Sheet.Run
import SharedSheet.Proofs.Sheet.Selection
import SharedSheet.Proofs.Sheet.Spelling
import SharedSheet.Proofs.Sheet.Stored
import SharedSheet.Proofs.Sheet.Texts
import SharedSheet.Proofs.Sheet.Undo
import SharedSheet.Proofs.Sheet.Walk
import SharedSheet.Proofs.Sheet.Write
import SharedSheet.Proofs.Storage.Backends
import SharedSheet.Proofs.Storage.Database
import SharedSheet.Proofs.Storage.Interrupted
import SharedSheet.Proofs.Storage.Names
import SharedSheet.Proofs.Storage.RecordGrammar
import SharedSheet.Proofs.Storage.RecordText
import SharedSheet.Proofs.Storage.RecordValue
import SharedSheet.Proofs.Storage.Shelf
import SharedSheet.Proofs.Storage.TextFiles
import SharedSheet.Proofs.Table
import SharedSheet.Proofs.Text
import SharedSheet.Proofs.Text.Lines
import SharedSheet.Proofs.Text.Utf8
import SharedSheet.Proofs.Wire.Handshake
import SharedSheet.Proofs.Wire.Lines
