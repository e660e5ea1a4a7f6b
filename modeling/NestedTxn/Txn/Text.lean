import NestedTxn.Txn.Basic

/-!
# Transactions as text

The words that messages, events, settings and stored records use for transactions and their
parts. A name read back gives the same level (`Isolation.ofKey?_key`) or state
(`TxnState.ofName?_name`).
-/

namespace NestedTxn

/-- The name of an isolation level. -/
def Isolation.name : Isolation → String
  | .snapshot => "SnapshotIsolation"
  | .readCommitted => "ReadCommitted"
  | .readUncommitted => "ReadUncommitted"

/-- The name of an isolation level in settings and stored records. -/
def Isolation.key : Isolation → String
  | .snapshot => "snapshot_isolation"
  | .readCommitted => "read_committed"
  | .readUncommitted => "read_uncommitted"

/-- The isolation level that settings and stored records call `key`. -/
def Isolation.ofKey? (key : String) : Option Isolation :=
  [snapshot, readCommitted, readUncommitted].find? (·.key = key)

theorem Isolation.ofKey?_key (i : Isolation) : ofKey? i.key = some i := by cases i <;> decide

/-- The name of a recorded state. -/
def TxnState.name : TxnState → String
  | .active => "Active"
  | .committed => "Committed"
  | .rolledBack => "RolledBack"

/-- The recorded state called `name`. -/
def TxnState.ofName? (name : String) : Option TxnState :=
  [active, committed, rolledBack].find? (·.name = name)

theorem TxnState.ofName?_name (s : TxnState) : ofName? s.name = some s := by cases s <;> decide

/-- The short form of a transaction: its id, begin timestamp and state, its parent if it has one,
and whether it is writable. -/
def Txn.describe (t : Txn) : String :=
  let parent := match t.parent with
    | some p => ", parent=" ++ toString p
    | none => ""
  let writable := if t.allowsWrites then ", writable" else ""
  "Txn(id=" ++ toString t.id ++ ", begin=" ++ toString t.beginTimestamp ++ ", state=" ++
    t.state.name ++ parent ++ writable ++ ")"

end NestedTxn
