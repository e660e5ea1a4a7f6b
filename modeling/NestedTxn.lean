import NestedTxn.Act
import NestedTxn.Ascending
import NestedTxn.Clock
import NestedTxn.CommandLine.Arguments
import NestedTxn.CommandLine.Program
import NestedTxn.Config
import NestedTxn.Config.Yaml
import NestedTxn.Connection.Basic
import NestedTxn.Connection.Calls
import NestedTxn.Counters
import NestedTxn.Database.Basic
import NestedTxn.Database.Session
import NestedTxn.Error
import NestedTxn.Json.Basic
import NestedTxn.Json.Parser
import NestedTxn.Json.Records
import NestedTxn.Ledger
import NestedTxn.Lifecycle
import NestedTxn.Log.Event
import NestedTxn.Log.File
import NestedTxn.Log.Level
import NestedTxn.Resolver.Queue
import NestedTxn.Resolver.Turns
import NestedTxn.Resolver.Writer
import NestedTxn.Row.Basic
import NestedTxn.Row.Locks
import NestedTxn.Row.Store
import NestedTxn.Script.Command
import NestedTxn.Script.Runner
import NestedTxn.Services
import NestedTxn.Switch
import NestedTxn.Text.Blank
import NestedTxn.Text.File
import NestedTxn.Text.Folder
import NestedTxn.Text.Numeral
import NestedTxn.Text.Utf8
import NestedTxn.Txn.Basic
import NestedTxn.Txn.Destination
import NestedTxn.Txn.Text
import NestedTxn.Visibility.EffectiveState
import NestedTxn.Visibility.SnapshotFilter
import NestedTxn.Yaml.Glyph
import NestedTxn.Yaml.Mapping
import NestedTxn.Yaml.Node
import NestedTxn.Yaml.Scalar
import NestedTxn.Yaml.Scalar.Block
import NestedTxn.Yaml.Scalar.Fold
import NestedTxn.Yaml.Scalar.Plain
import NestedTxn.Yaml.Scalar.Quoted
import NestedTxn.Yaml.Tag
import NestedTxn.Yaml.Token
import NestedTxn.Yaml.Token.Lexer
import NestedTxn.Main
import NestedTxn.Proofs.Ledger.Chain
import NestedTxn.Proofs.Lifecycle.Steps
import NestedTxn.Proofs.Lifecycle.Elevation
import NestedTxn.Proofs.Lifecycle.Soundness
import NestedTxn.Proofs.Lifecycle.Runs
import NestedTxn.Proofs.Lifecycle.Finality
import NestedTxn.Proofs.Visibility.Walk
import NestedTxn.Proofs.Visibility.Decision
import NestedTxn.Proofs.Visibility.FastPath
import NestedTxn.Proofs.Connection.Seated
import NestedTxn.Proofs.Connection.Moves
import NestedTxn.Proofs.Visibility.Reading
import NestedTxn.Proofs.Session.Runs
import NestedTxn.Proofs.Row.Calls
import NestedTxn.Proofs.Session.Orderly
import NestedTxn.Proofs.Session.Calls
import NestedTxn.Proofs.Resolver.Marking
import NestedTxn.Proofs.Session.Safety
import NestedTxn.Proofs.Connection.Agreement
import NestedTxn.Proofs.Session.Transparency
import NestedTxn.Proofs.UndoLog.Basic
import NestedTxn.Proofs.Lifecycle.Success
import NestedTxn.Proofs.Session.Seen
import NestedTxn.Proofs.UndoLog.Trace
import NestedTxn.Proofs.UndoLog.Refinement
import NestedTxn.Proofs.Connection.Success
import NestedTxn.Proofs.UndoLog.Steps
import NestedTxn.Proofs.UndoLog.Calls
import NestedTxn.Proofs.UndoLog.Reading
import NestedTxn.Proofs.UndoLog.Runs
import NestedTxn.Proofs.Lifecycle.Timestamps
import NestedTxn.Proofs.Visibility.Safety
import NestedTxn.Proofs.Visibility.Snapshot
import NestedTxn.Proofs.Connection.Stepwise
import NestedTxn.Proofs.Connection.Shifts
import NestedTxn.Proofs.Connection.Perched
import NestedTxn.Proofs.Connection.Nested
import NestedTxn.Proofs.Connection.Remaining
import NestedTxn.Proofs.Session.Effects
import NestedTxn.Proofs.Session.OwnWrites
import NestedTxn.Proofs.Ledger.Ancestry
import NestedTxn.Proofs.Lifecycle.Failures
import NestedTxn.Proofs.Ledger.Permission
import NestedTxn.Proofs.Lifecycle.Permission
import NestedTxn.Proofs.Visibility.Walkable
import NestedTxn.Proofs.Connection.Upkeep
import NestedTxn.Proofs.Connection.Failures
import NestedTxn.Proofs.Connection.Pool
import NestedTxn.Proofs.Connection.Undoing
import NestedTxn.Proofs.Connection.Retry
import NestedTxn.Proofs.Row.Outages
import NestedTxn.Proofs.Session.Storing
import NestedTxn.Proofs.Lifecycle.Booked
import NestedTxn.Proofs.Session.Quiet
import NestedTxn.Proofs.Session.Unlocked
import NestedTxn.Proofs.Session.Locks
import NestedTxn.Proofs.Connection.Batch
import NestedTxn.Proofs.Lifecycle.Outermost
import NestedTxn.Proofs.Connection.Ending
import NestedTxn.Proofs.Connection.Repeating
import NestedTxn.Proofs.Connection.Closed
import NestedTxn.Proofs.Ledger.Edits
import NestedTxn.Proofs.Lifecycle.Outcomes
import NestedTxn.Proofs.Connection.Aged
import NestedTxn.Proofs.Session.Housed
import NestedTxn.Proofs.Visibility.Rows
import NestedTxn.Proofs.Session.LastWrite
import NestedTxn.Proofs.Connection.Accurate
import NestedTxn.Proofs.Session.Accounts
import NestedTxn.Proofs.Connection.Names
import NestedTxn.Proofs.Connection.Nearest
import NestedTxn.Proofs.Visibility.Strangers
import NestedTxn.Proofs.Session.Aloof
import NestedTxn.Proofs.Session.Ranges
import NestedTxn.Proofs.Lifecycle.Global
import NestedTxn.Proofs.Visibility.Lookups
import NestedTxn.Proofs.Visibility.Scans
import NestedTxn.Proofs.Visibility.Memo
import NestedTxn.Proofs.Lifecycle.Copies
import NestedTxn.Proofs.Lifecycle.Cascade
import NestedTxn.Proofs.Connection.Copies
import NestedTxn.Proofs.Connection.Elevating
import NestedTxn.Proofs.Visibility.Corrupt
import NestedTxn.Proofs.Resolver.Desk
import NestedTxn.Proofs.Resolver.Conservation
import NestedTxn.Proofs.Lifecycle.Corrupt
import NestedTxn.Proofs.Script.Composition
