import NestedTxn.Txn.Destination

/-!
# Transactions

* `Txn`: one node of a transaction tree, as it is recorded. A node names its parent by id; a
  node without a parent is a root.
* `Txn.root`, `Txn.child`: fresh active nodes. A child is dependent: it is rolled back whenever
  its parent is.
* `Txn.finish`: the record after a terminal outcome; `Txn.grant`: the record after one more table
  was added to its destination.
-/

namespace NestedTxn

/-- Identifier of a transaction, assigned at its creation. -/
abbrev TxnId := Nat

/-- A reading of the clock that orders begins and commits. -/
abbrev Timestamp := Nat

/-- Isolation level a transaction reads under. -/
inductive Isolation where
  /-- Sees writes committed at or before its begin timestamp. -/
  | snapshot
  /-- Sees every committed write. -/
  | readCommitted
  /-- Sees every write that is not rolled back. -/
  | readUncommitted
deriving DecidableEq, Inhabited

/-- Recorded state of a transaction. -/
inductive TxnState where
  /-- Still running. -/
  | active
  /-- Committed for good. -/
  | committed
  /-- Rolled back for good. -/
  | rolledBack
deriving DecidableEq

/-- Committed and rolled back transactions never change again. -/
def TxnState.isTerminal : TxnState → Bool
  | .active => false
  | .committed | .rolledBack => true

/-- Terminal transition of a recorded transaction. -/
inductive Outcome where
  /-- Commit at `commitTs`; `globalTs` is the commit timestamp of the outermost committed
  ancestor, when it is already known. -/
  | committed (commitTs : Timestamp) (globalTs : Option Timestamp)
  /-- Roll back. -/
  | rolledBack
deriving DecidableEq

/-- One node of the transaction tree. -/
structure Txn where
  /-- Unique id. -/
  id : TxnId
  /-- Snapshot boundary. -/
  beginTimestamp : Timestamp
  /-- Parent transaction, `none` for a root. -/
  parent : Option TxnId := none
  /-- When the transaction committed, if it did. -/
  commitTimestamp : Option Timestamp := none
  /-- Commit timestamp of the outermost committed ancestor, when known at commit. -/
  globalCommitTimestamp : Option Timestamp := none
  /-- Isolation level used when this transaction reads. -/
  isolation : Isolation
  /-- Recorded state. -/
  state : TxnState := .active
  /-- Rolled back whenever the parent is rolled back. -/
  dependent : Bool := false
  /-- Conflict-detection flag for writes; stored only. -/
  additive : Bool := false
  /-- Tables this transaction may write to; `none` means read-only. -/
  destination : Option Destination := none
  /-- Number of ancestors, counted in 64 bits; 0 for a root. -/
  depth : UInt64 := 0
deriving DecidableEq

namespace Txn

/-- A fresh active root transaction. -/
def root (id : TxnId) (beginTs : Timestamp) (isolation : Isolation) : Txn where
  id
  beginTimestamp := beginTs
  isolation

/-- A fresh active, dependent child of `parent`. -/
def child (id : TxnId) (beginTs : Timestamp) (parent : Txn) (isolation : Isolation)
    (additive : Bool) (destination : Option Destination) : Txn where
  id
  beginTimestamp := beginTs
  parent := some parent.id
  isolation
  dependent := true
  additive
  destination
  depth := parent.depth + 1

/-- Whether the transaction has no parent. -/
def isRoot (t : Txn) : Bool := t.parent.isNone

/-- Whether the transaction's fate does not hang on a parent: it is a root or not dependent. -/
def standsAlone (t : Txn) : Bool := t.isRoot || !t.dependent

/-- Whether the transaction is writable for any table. -/
def allowsWrites (t : Txn) : Bool := t.destination.isSome

/-- Whether writes to `table` are permitted. -/
def writableFor (t : Txn) (table : Table) : Bool :=
  t.destination.any (·.covers table)

/-- The record after a terminal outcome. -/
def finish (t : Txn) : Outcome → Txn
  | .committed commitTs globalTs =>
    { t with
      state := .committed, commitTimestamp := some commitTs, globalCommitTimestamp := globalTs }
  | .rolledBack =>
    { t with state := .rolledBack, commitTimestamp := none, globalCommitTimestamp := none }

/-- The record after `table` was added to its destination. -/
def grant (t : Txn) (table : Table) : Txn :=
  { t with
    destination := some (match t.destination with
      | some d => d.insert table
      | none => .of table) }

@[simp] theorem grant_id (t : Txn) (table : Table) : (t.grant table).id = t.id := rfl

@[simp] theorem finish_id (t : Txn) (o : Outcome) : (t.finish o).id = t.id := by
  cases o <;> rfl

/-- After a grant the table is permitted, and what was permitted stays so. -/
@[simp] theorem writableFor_grant {t : Txn} {a b : Table} :
    (t.grant a).writableFor b = true ↔ b = a ∨ t.writableFor b = true := by
  cases h : t.destination <;> simp [grant, writableFor, h]

end Txn

end NestedTxn
