import NestedTxn.Services

/-!
# Lifecycle of transactions

* `Lifecycle.beginRoot`, `beginChild`: new transactions. Their ids come from the clock.
* `Lifecycle.elevate`, `elevateUnder`: make a transaction and its ancestors writable for a table,
  outermost first.
* `Lifecycle.commit`, `rollback`: terminal transitions. A commit records the commit timestamp of
  the outermost committed ancestor if every ancestor is committed by then.

Every operation is at least one call of the clock or the ledger. Nothing is retried.
-/

namespace NestedTxn

namespace Lifecycle

open Services

/-- Refuse a transaction that is terminal already. -/
def demandActive (t : Txn) : Act Services TxnError Unit := do
  if t.state.isTerminal then throw (.alreadyTerminal t.id t.state)

/-- The record of `id`. -/
def recorded (id : TxnId) : Act Services TxnError Txn := do
  match ← onLedger (Ledger.fetch id) with
  | some t => return t
  | none => throw (.notFound id)

/-- Begin a read-only root transaction. -/
def beginRoot (isolation : Isolation) : Act Services TxnError Txn := do
  let ts ← tick
  let t := Txn.root ts ts isolation
  onLedger (Ledger.create t)
  count .begun
  report (.begunRoot t)
  return t

/-- Begin a read-only root transaction at the default isolation level. -/
def beginDefault (config : Config) : Act Services TxnError Txn :=
  beginRoot config.defaultIsolation

/-- Begin a dependent child of `parent`, at the parent's isolation level if none is given. It is
writable for `table` only if the parent is. -/
def beginChild (config : Config) (parent : Txn) (isolation : Option Isolation := none)
    (additive : Bool := false) (table : Option Table := none) : Act Services TxnError Txn := do
  demandActive parent
  if config.maxAncestorDepth ≤ parent.depth then
    throw (.nestingTooDeep parent.id config.maxAncestorDepth)
  let ts ← tick
  let destination := (table.filter parent.writableFor).map Destination.of
  let t := Txn.child ts ts parent (isolation.getD parent.isolation) additive destination
  onLedger (Ledger.create t)
  count .begun
  report (.begunChild t)
  return t

/-- Add `table` to the destination of `t`. -/
def grant (t : Txn) (table : Table) : Act Services TxnError Txn := do
  let elevated ← onLedger (Ledger.grant t.id table)
  if !t.allowsWrites then count .elevations
  report (.elevated elevated table)
  return elevated

/-- The transactions from an id upwards that do not cover `table`, nearest first, up to the first
that does. At most as many as the first argument are looked up, none of those in `seen`. -/
def uncovered (table : Table) :
    Nat → List TxnId → Option TxnId → Act Services TxnError (List Txn)
  | _, _, none => return []
  | 0, _, some id => throw (.malformedAncestry (.cycleOrExcessDepth id))
  | budget + 1, seen, some id => do
    if id ∈ seen then throw (.malformedAncestry (.cycleOrExcessDepth id))
    let t ← recorded id
    if t.writableFor table then return []
    return t :: (← uncovered table budget (id :: seen) t.parent)

/-- Make `t` writable for `table`, and every ancestor that is not yet, outermost first. Nothing
happens if `t` covers `table` already. -/
def elevate (config : Config) (t : Txn) (table : Table) : Act Services TxnError Txn := do
  if t.writableFor table then return t
  demandActive t
  let pending ← uncovered table config.maxAncestorDepth.toNat [] t.parent
  pending.reverse.forM fun ancestor => discard (grant ancestor table)
  grant t table

/-- Make `t` writable for `table`, whose parent `parent` was just elevated: then its ancestors
need no look. -/
def elevateUnder (config : Config) (t : Txn) (table : Table) (parent : Option Txn) :
    Act Services TxnError Txn := do
  if t.writableFor table then return t
  if parent.any fun p => t.parent = some p.id && p.writableFor table then
    demandActive t
    grant t table
  else
    elevate config t table

/-- The commit timestamp of the outermost transaction from an id upwards, or `none` if one of them
is not committed. At most as many as the first argument are looked up, none of those in `seen`. -/
def globalTimestamp :
    Nat → List TxnId → Option TxnId → Act Services TxnError (Option Timestamp)
  | _, _, none => return none
  | 0, _, some id => throw (.malformedAncestry (.cycleOrExcessDepth id))
  | budget + 1, seen, some id => do
    if id ∈ seen then throw (.malformedAncestry (.cycleOrExcessDepth id))
    let p ← recorded id
    if p.state ≠ .committed then return none
    if p.standsAlone then return p.commitTimestamp
    globalTimestamp budget (id :: seen) p.parent

/-- Commit `t`, and give its commit timestamp. -/
def commit (config : Config) (t : Txn) : Act Services TxnError Timestamp := do
  demandActive t
  let ts ← tick
  let globalTs ←
    if t.standsAlone then pure (some ts)
    else globalTimestamp config.maxAncestorDepth.toNat [] t.parent
  discard (onLedger (Ledger.finish t.id (.committed ts globalTs)))
  count .committed
  report (.committed ts globalTs)
  return ts

/-- Roll back `t`. This does nothing to a transaction that is rolled back already, and fails on
one that is committed. -/
def rollback (t : Txn) : Act Services TxnError Unit := do
  match t.state with
  | .rolledBack => return
  | .committed => throw (.alreadyTerminal t.id t.state)
  | .active =>
    match ← Act.attempt (onLedger (Ledger.finish t.id .rolledBack)) with
    | .ok _ =>
      count .rolledBack
      report .rolledBack
    | .error (.alreadyTerminal _ .rolledBack) => return
    | .error e => throw e

end Lifecycle

end NestedTxn
