import NestedTxn.Config
import NestedTxn.Row.Basic
import NestedTxn.Txn.Text

/-!
# Errors

* `RowFault`: why the row store does not answer.
* `AncestryFault`: what is wrong with a chain of ancestors.
* `OpenFault`: why a database cannot be opened.
* `TxnError`: the failures of the transaction core. `SessionError`: those of a session.
* `message`: the text of each.
-/

namespace NestedTxn

/-- Why the row store does not answer. -/
inductive RowFault where
  /-- The store is switched off. -/
  | switchedOff
  /-- An earlier call crashed while it held the rows. -/
  | poisoned
  /-- The call crashed: its range starts after its end. -/
  | invertedRange
deriving DecidableEq

/-- The text of a fault of the row store. -/
def RowFault.message (f : RowFault) : String :=
  "storage unavailable: " ++ match f with
    | .switchedOff => "memory store switched off"
    | .poisoned => "row map poisoned"
    | .invertedRange => "range starts after its end"

/-- What is wrong with a chain of ancestors. -/
inductive AncestryFault where
  /-- A walk of the lifecycle came back to `id`, or reached the depth limit there. -/
  | cycleOrExcessDepth (id : TxnId)
  /-- A walk of a filter came back to `id`, or reached the depth limit there. -/
  | malformedAt (id : TxnId)
  /-- The ancestor `id` is not recorded. -/
  | missingAncestor (id : TxnId)
  /-- The writer `id` is not recorded. -/
  | unknownWriter (id : TxnId)
  /-- `id` is recorded as committed, but not when. -/
  | commitWithoutTimestamp (id : TxnId)
  /-- The chain has no last node. -/
  | noRoot
  /-- The version names no writer. -/
  | noWriter
deriving DecidableEq

/-- The text of a fault of a chain. -/
def AncestryFault.message : AncestryFault → String
  | .cycleOrExcessDepth id => "cycle or excess depth at " ++ toString id
  | .malformedAt id => "malformed ancestry at " ++ toString id
  | .missingAncestor id => "missing ancestor " ++ toString id
  | .unknownWriter id => "unknown writer " ++ toString id
  | .commitWithoutTimestamp id => "transaction " ++ toString id ++ " committed without a timestamp"
  | .noRoot => "ancestry chain ends before its root"
  | .noWriter => "version carries no writer id"

/-- Why a database cannot be opened. -/
inductive OpenFault where
  /-- Its settings are refused. -/
  | config (fault : ConfigFault)
  /-- The call crashed: no queue can be asked to hold so much. -/
  | oversizedQueue
deriving DecidableEq

/-- Which service does not answer. -/
inductive Outage where
  /-- The record of transactions is switched off. -/
  | ledger
  /-- The clock has no reading. -/
  | clock
  /-- The row store. -/
  | rows (fault : RowFault)
deriving DecidableEq

/-- The text of an outage. -/
def Outage.message : Outage → String
  | .ledger => "transaction store switched off"
  | .clock => "timestamps exhausted"
  | .rows fault => fault.message

/-- Failures of the transaction core. -/
inductive TxnError where
  /-- A service does not answer. -/
  | unavailable (outage : Outage)
  /-- Commit or rollback of a transaction that already reached a terminal state. -/
  | alreadyTerminal (id : TxnId) (state : TxnState)
  /-- No savepoint of that name is on the stack. -/
  | savepointNotFound (name : String)
  /-- The connection is closed. -/
  | closed
  /-- A chain cannot be resolved to an effective state. -/
  | unresolvable (fault : AncestryFault)
  /-- The chain of a transaction being created, elevated, committed or used as a reader is
  cyclic, broken or too long. -/
  | malformedAncestry (fault : AncestryFault)
  /-- A child of `parent` would nest deeper than `max` levels. -/
  | nestingTooDeep (parent : TxnId) (max : UInt64)
  /-- No record for the id. -/
  | notFound (id : TxnId)
  /-- A record with this id is already stored. -/
  | alreadyExists (id : TxnId)
  /-- Refused settings. -/
  | config (fault : ConfigFault)
deriving DecidableEq

/-- The text of a failure of the transaction core. -/
def TxnError.message : TxnError → String
  | .unavailable outage => "storage unavailable: " ++ outage.message
  | .alreadyTerminal id state => "transaction " ++ toString id ++ " is already " ++ state.name
  | .savepointNotFound name => "savepoint " ++ name ++ " does not exist"
  | .closed => "transaction has already closed"
  | .unresolvable fault => "unresolvable writer: " ++ fault.message
  | .malformedAncestry fault => "malformed ancestry: " ++ fault.message
  | .nestingTooDeep parent max =>
    "transaction " ++ toString parent ++ " is already nested " ++ toString max ++ " levels deep"
  | .notFound id => "transaction " ++ toString id ++ " not found"
  | .alreadyExists id => "transaction " ++ toString id ++ " already exists"
  | .config fault => "invalid configuration: " ++ fault.message

/-- A failure of the row store as a failure of the transaction core. -/
def TxnError.ofRows (fault : RowFault) : TxnError :=
  .unavailable (.rows fault)

/-- Failures of a session. -/
inductive SessionError where
  /-- Failure of the transaction core. -/
  | txn (error : TxnError)
  /-- Another writer holds the lock on `key`. -/
  | rowLocked (key : Key)
deriving DecidableEq

/-- The text of a failure of a session. -/
def SessionError.message : SessionError → String
  | .txn error => error.message
  | .rowLocked key => "row " ++ Utf8.lossy key ++ " is locked by another writer"

end NestedTxn
