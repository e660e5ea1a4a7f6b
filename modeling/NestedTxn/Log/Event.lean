import NestedTxn.Connection.Basic
import NestedTxn.Error
import NestedTxn.Log.Level

/-!
# Events

* `Event`: everything that the system reports while it works.
* `Event.level`, `Event.target`, `Event.fields`: the severity of an event, the part of the system
  that reports it, and its fields in the order of their names.
-/

namespace NestedTxn

/-- A call on a connection that is reported before and after its work. -/
inductive ConnectionCall where
  | setSavepoint
  | releaseSavepoint
  | rollbackToSavepoint
  | commit
  | abort
  | elevate
deriving DecidableEq

/-- The name of a call on a connection. -/
def ConnectionCall.name : ConnectionCall → String
  | setSavepoint => "set_savepoint"
  | releaseSavepoint => "release_savepoint"
  | rollbackToSavepoint => "rollback_to_savepoint"
  | commit => "commit"
  | abort => "abort"
  | elevate => "elevate"

/-- Why a resolution was dropped. -/
inductive DropReason where
  /-- The queue is full. -/
  | full
  /-- The queue is closed. -/
  | closed
deriving DecidableEq

/-- The text of the reason for a drop. -/
def DropReason.message : DropReason → String
  | full => "no available capacity"
  | closed => "channel closed"

/-- Something that the system reports. -/
inductive Event where
  /-- A root transaction began. -/
  | begunRoot (txn : Txn)
  /-- A child transaction began. -/
  | begunChild (txn : Txn)
  /-- A transaction became writable for one more table. -/
  | elevated (txn : Txn) (table : Table)
  /-- A transaction committed. -/
  | committed (commitTs : Timestamp) (globalTs : Option Timestamp)
  /-- A transaction rolled back. -/
  | rolledBack
  /-- The state of a connection before (`done = false`) or after a call. -/
  | connection (conn : Connection) (done : Bool) (call : ConnectionCall) (subject : String)
  /-- An idle connection was told to commit. -/
  | nothingToCommit (conn : String)
  /-- A read used a cached outcome. -/
  | usedCached (writer : TxnId) (resolution : Resolution)
  /-- A read skipped a version whose writer has no effective state. -/
  | skippedVersion (key : Key) (writer : Option TxnId) (reason : AncestryFault)
  /-- A resolution was not queued. -/
  | droppedResolution (writer : TxnId) (reason : DropReason)
  /-- A queued resolution could not be written back. -/
  | resolutionNotPersisted (writer : TxnId) (fault : RowFault)
  /-- A resolution was written back. -/
  | resolutionStored (writer : TxnId) (resolution : Resolution)
  /-- A database was opened. -/
  | databaseOpened (readResolution : Bool) (isolation : Isolation)
  /-- The services of a database did not answer. -/
  | healthCheckFailed (error : TxnError)
deriving DecidableEq

namespace Event

/-- The severity of an event. -/
def level : Event → Level
  | databaseOpened .. => .info
  | skippedVersion .. => .warn
  | usedCached .. | resolutionStored .. => .trace
  | _ => .debug

/-- The part of the system that reports an event. -/
def target : Event → String
  | begunRoot _ | begunChild _ | elevated .. | committed .. | rolledBack => "si_txn::lifecycle"
  | connection .. | nothingToCommit _ => "si_txn::savepoint"
  | usedCached .. | skippedVersion .. => "si_txn::filter"
  | droppedResolution .. | resolutionNotPersisted .. => "si_txn::resolver"
  | resolutionStored .. => "si_storage::engine"
  | databaseOpened .. | healthCheckFailed _ => "sidb"

/-- A number that may be absent, as events show it. -/
def optionText : Option Nat → String
  | some n => "Some(" ++ toString n ++ ")"
  | none => "None"

/-- The bytes of a key, as events show them. -/
def keyText (key : Key) : String :=
  "[" ++ ", ".intercalate (key.map toString) ++ "]"

/-- A resolution, as events show it. -/
def resolutionText : Resolution → String
  | .committed ts => "Committed \x7b commit_ts: " ++ toString ts ++ " \x7d"
  | .rolledBack => "RolledBack"

/-- The entries of a stack in one line, top first. -/
def stackText (stack : List Savepoint) : String :=
  String.join (stack.map fun s => "name=" ++ s.name ++ ", txn=" ++ s.txn.describe ++ "; ")

/-- The fields of an event in the order of their names; the words of the event itself are the
field `message`. -/
def fields : Event → List (String × String)
  | begunRoot txn => [("message", "began root transaction"), ("txn", txn.describe)]
  | begunChild txn => [("message", "began child transaction"), ("txn", txn.describe)]
  | elevated txn table =>
    [("message", "elevated"), ("table", table), ("txn", txn.describe)]
  | committed commitTs globalTs =>
    [("commit_ts", toString commitTs), ("global_commit_ts", optionText globalTs),
      ("message", "committed")]
  | rolledBack => [("message", "rolled back")]
  | connection conn done call subject =>
    [("connection", conn.name), ("op", (if done then "after " else "before ") ++ call.name),
      ("savepoint", subject), ("stack", stackText conn.stack), ("state", conn.phase.name)]
  | nothingToCommit conn => [("connection", conn), ("message", "nothing to commit")]
  | usedCached writer resolution =>
    [("message", "using cached resolution"), ("resolution", resolutionText resolution),
      ("writer", toString writer)]
  | skippedVersion key writer reason =>
    [("key", keyText key), ("message", "skipping unresolvable row version"),
      ("reason", reason.message), ("writer", optionText writer)]
  | droppedResolution writer reason =>
    [("message", "dropped read resolution"), ("reason", reason.message),
      ("writer", toString writer)]
  | resolutionNotPersisted writer fault =>
    [("error", fault.message), ("message", "read resolution not persisted"),
      ("writer", toString writer)]
  | resolutionStored writer resolution =>
    [("message", "resolution stored"), ("resolution", resolutionText resolution),
      ("writer", toString writer)]
  | databaseOpened readResolution isolation =>
    [("isolation", isolation.name), ("message", "database opened"),
      ("read_resolution", toString readResolution)]
  | healthCheckFailed error => [("error", error.message), ("message", "health check failed")]

end Event

end NestedTxn
