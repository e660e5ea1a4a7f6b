import NestedTxn.Database.Basic

/-!
# Sessions

A session is a connection that reads and writes rows of a database.

* `Session.put`, `delete`: a write elevates the connection, takes the lock of the row, appends a
  version tagged with the leaf, and gives the lock back.
* `Session.get`, `scan`: a read takes the leaf, and looks through a fresh filter for it.
-/

namespace NestedTxn

namespace Session

open Services

/-- A call on the session's connection. -/
def onConnection {α : Type} (a : Act (Connection × Services) TxnError α) :
    Act (Connection × Services) SessionError α :=
  a.wrap .txn

/-- A call of the row store. -/
def onRows {α : Type} (a : Act RowStore RowFault α) :
    Act (Connection × Services) SessionError α :=
  Act.onSnd ((Services.onRows a).wrap fun fault => .txn (.ofRows fault))

/-- Write a version of `key` in `table`; `none` is a delete. The lock is given back whether or
not the version was written. -/
def write (db : Database) (table : Table) (key : Key) (value : Option Bytes) :
    Act (Connection × Services) SessionError Unit := do
  let leaf ← onConnection (Connection.elevate db.config table)
  if !(← onRows (RowStore.take key leaf.id)) then throw (.rowLocked key)
  let written : Except SessionError Unit ←
    Act.attempt (onRows (RowStore.add { key, writer := some leaf.id, value }))
  let released : Except SessionError Unit ← Act.attempt (onRows (RowStore.release key leaf.id))
  if let .error e := written then throw e
  if let .error e := released then throw e

/-- Write `value` to `key` in `table`. -/
def put (db : Database) (table : Table) (key : Key) (value : Bytes) :
    Act (Connection × Services) SessionError Unit :=
  write db table key (some value)

/-- Delete `key` in `table`. -/
def delete (db : Database) (table : Table) (key : Key) :
    Act (Connection × Services) SessionError Unit :=
  write db table key none

/-- Run a read with a fresh filter for the leaf. -/
def withFilter {α : Type} (db : Database) (a : Act (SnapshotFilter × Services) TxnError α) :
    Act (Connection × Services) SessionError α :=
  onConnection do
    let reader ← Connection.activeTxn db.config
    let filter ← Act.onSnd (SnapshotFilter.load reader db.sink db.config.maxAncestorDepth.toNat)
    Act.onSnd (Act.withLocal filter a)

/-- The newest value of `key` that the leaf sees. -/
def get (db : Database) (key : Key) : Act (Connection × Services) SessionError (Option Bytes) :=
  withFilter db (SnapshotFilter.read key)

/-- The rows of a range that the leaf sees, keys ascending. -/
def scan (db : Database) (start : Key) (stop : Option Key) :
    Act (Connection × Services) SessionError (List (Key × Bytes)) :=
  withFilter db (SnapshotFilter.scan start stop)

end Session

end NestedTxn
