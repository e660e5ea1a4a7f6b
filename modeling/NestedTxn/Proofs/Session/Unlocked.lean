import NestedTxn.Proofs.Session.Quiet
import NestedTxn.Proofs.Session.Storing

/-!
# What leaves the rows alone

* `Session.Call.run_sameRows`: a call of a session that neither reads nor writes does not touch the
  rows: the connection spares them.
* `Session.Call.run_sameLocks`: whatever does not answer, the row locks are those before after every
  call but a write, since a read through a filter is quiet.
-/

namespace NestedTxn

namespace Session

open Services

/-- The rows are those before. -/
def RowsStay (p p' : Connection × Services) : Prop := p'.2.rows = p.2.rows

/-- The row locks are those before. -/
def LocksStay (p p' : Connection × Services) : Prop := p'.2.rows.locks = p.2.rows.locks

theorem onConnection_sameRows {α : Type} {config : Config}
    {a : Act (Connection × Services) TxnError α} (h : Act.Keeps (Connection.Changes config) a) :
    Act.Keeps RowsStay (onConnection a) :=
  fun p => (h p).spares.rows

theorem withFilter_sameLocks {α : Type} (db : Database)
    {a : Act (SnapshotFilter × Services) TxnError α} (h : Act.Keeps QuietBeside a) :
    Act.Keeps LocksStay (withFilter db a) := fun p =>
  (withFilter_quiet h rfl rfl).2.locks.trans
    (congrArg RowStore.locks (Connection.activeTxn_shifts db.config p).spares.rows)

/-- The call reads rows. -/
def Call.isRead : Call → Bool
  | get _ | scan _ _ => true
  | _ => false

/-- A call that neither reads nor writes leaves the rows alone. -/
theorem Call.run_sameRows (db : Database) {c : Call} (hr : c.isRead = false)
    (hw : c.write? = none) : Act.Keeps RowsStay (c.run db) := by
  cases c with
  | put | delete => cases hw
  | get | scan => cases hr
  | begin =>
    exact (onConnection_sameRows fun p => .inl (Connection.activeTxn_shifts db.config p)).map _
  | savepoint name =>
    exact (onConnection_sameRows fun p =>
      .inl (Connection.setSavepoint_shifts db.config name p)).map _
  | release name =>
    exact (onConnection_sameRows fun p =>
      .inl (Connection.releaseSavepoint_shifts db.config name p)).map _
  | rollbackTo name =>
    exact (onConnection_sameRows fun p =>
      .inl (Connection.rollbackTo_shifts db.config name p)).map _
  | commit => exact (onConnection_sameRows (Connection.commit_changes db.config)).map _
  | abort => exact (onConnection_sameRows fun p => .inl (Connection.abort_shifts db.config p)).map _
  | close => exact (onConnection_sameRows fun p => .inl (Connection.close_shifts db.config p)).map _

/-- A call that is not a write leaves the row locks alone. -/
theorem Call.run_sameLocks (db : Database) {c : Call} (hc : c.write? = none) :
    Act.Keeps LocksStay (c.run db) := by
  cases hr : c.isRead with
  | false => exact fun p => congrArg RowStore.locks (c.run_sameRows db hr hc p)
  | true =>
    cases c with
    | get key => exact (withFilter_sameLocks db (SnapshotFilter.read_quiet key)).map _
    | scan start stop =>
      exact (withFilter_sameLocks db (SnapshotFilter.scan_quiet start stop)).map _
    | _ => cases hr

end Session

end NestedTxn
