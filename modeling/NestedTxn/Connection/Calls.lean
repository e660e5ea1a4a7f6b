import NestedTxn.Connection.Basic
import NestedTxn.Lifecycle

/-!
# Calls on a connection

* `Connection.activeTxn`, `activateNested`: start the connection's transaction, as a root or as a
  child of an outer transaction.
* `Connection.setSavepoint`, `releaseSavepoint`, `rollbackTo`: nested savepoints. An entry leaves
  the stack only after its outcome is recorded, so a call that failed can be repeated.
* `Connection.commit`, `abort`, `close`: the end of the connection's transaction. A commit records
  the bottom entry only; that settles every entry above it.
* `Connection.elevate`: makes every entry writable for a table, bottom first.
-/

namespace NestedTxn

namespace Connection

open Services

/-- The name that switches savepoints off while it is set. -/
def batchName : String := "BATCH_SAVEPOINT"

/-- Change the connection. -/
def alter (f : Connection → Connection) : Act (Connection × Services) TxnError Unit :=
  modify fun s => (f s.1, s.2)

/-- Report the state of the connection. -/
def trace (done : Bool) (call : ConnectionCall) (subject : String) :
    Act (Connection × Services) TxnError Unit := do
  Act.onSnd (report (.connection (← get).1 done call subject))

/-- The transaction that statements run under. -/
def leaf : Act (Connection × Services) TxnError Txn := do
  match (← get).1.leaf? with
  | some t => return t
  | none => throw .closed

/-- Begin a root transaction if the connection is idle. -/
def ensureActive (config : Config) : Act (Connection × Services) TxnError Unit := do
  match (← get).1.phase with
  | .closed => throw .closed
  | .active => return
  | .idle =>
    let t ← Act.onSnd (Lifecycle.beginDefault config)
    alter fun c => { c.push c.name t with phase := .active }

/-- The transaction for the next statement; begins one if the connection is idle. -/
def activeTxn (config : Config) : Act (Connection × Services) TxnError Txn := do
  ensureActive config
  leaf

/-- Start as a child of an outer transaction. Nothing happens unless the connection is idle. -/
def activateNested (config : Config) (parent : Txn) (additive : Bool) (table : Option Table) :
    Act (Connection × Services) TxnError Unit := do
  match (← get).1.phase with
  | .closed => throw .closed
  | .active => return
  | .idle =>
    let t ← Act.onSnd
      (Lifecycle.beginChild config parent (some parent.isolation) additive table)
    alter fun c => { c.push c.name t with phase := .active }

/-- Push a savepoint, and give the new depth. -/
def setSavepoint (config : Config) (name : String) : Act (Connection × Services) TxnError Nat := do
  if (← get).1.suppressed then return 1
  if name = batchName then alter (·.suppress true)
  trace false .setSavepoint name
  ensureActive config
  let parent ← leaf
  let t ← Act.onSnd (Lifecycle.beginChild config parent)
  alter (·.push name t)
  trace true .setSavepoint name
  return (← get).1.depth

/-- The number of entries below the nearest savepoint called `name`. -/
def find (name : String) : Act (Connection × Services) TxnError Nat := do
  let c := (← get).1
  if c.phase = .closed then throw .closed
  match below? name c.stack with
  | some n => return n
  | none => throw (.savepointNotFound name)

/-- End the top `n` entries with `finish`, top first. An entry leaves the stack once it is
ended. -/
def unwind (finish : Txn → Act Services TxnError Unit) :
    Nat → Act (Connection × Services) TxnError Unit
  | 0 => return
  | n + 1 => do
    let top ← leaf
    Act.onSnd (finish top)
    alter pop
    unwind finish n

/-- End the entries from the top down to the nearest savepoint called `name`. -/
def unwindTo (name : String) (finish : Txn → Act Services TxnError Unit) :
    Act (Connection × Services) TxnError Unit := do
  let target ← find name
  unwind finish ((← get).1.depth - target)
  alter settle

/-- Commit every entry from the top down to the nearest savepoint called `name`, and give the
remaining depth. -/
def releaseSavepoint (config : Config) (name : String) :
    Act (Connection × Services) TxnError Nat := do
  if name = batchName then alter (·.suppress false)
  if (← get).1.suppressed then return 0
  trace false .releaseSavepoint name
  unwindTo name fun t => discard (Lifecycle.commit config t)
  trace true .releaseSavepoint name
  return (← get).1.depth

/-- Roll back every entry from the top down to the nearest savepoint called `name`, set a fresh
savepoint of that name, and give the resulting depth. -/
def rollbackTo (config : Config) (name : String) : Act (Connection × Services) TxnError Nat := do
  if (← get).1.suppressed then return 0
  trace false .rollbackToSavepoint name
  unwindTo name Lifecycle.rollback
  let depth ← setSavepoint config name
  trace true .rollbackToSavepoint name
  return depth

/-- Commit the connection's transaction. `none` if there was nothing to commit. -/
def commit (config : Config) : Act (Connection × Services) TxnError (Option Timestamp) := do
  trace false .commit ""
  let c := (← get).1
  match c.phase with
  | .idle =>
    Act.onSnd (report (.nothingToCommit c.name))
    return none
  | .closed => throw .closed
  | .active =>
    match c.bottom? with
    | none =>
      alter fun c => { c with phase := .idle }
      return none
    | some bottom =>
      let ts ← Act.onSnd (Lifecycle.commit config bottom)
      alter fun c => { c with stack := [], phase := .idle }
      trace true .commit ""
      return some ts

/-- Roll back every entry, top first. Nothing happens unless the connection is active. -/
def abort : Act (Connection × Services) TxnError Unit := do
  trace false .abort ""
  let c := (← get).1
  if c.phase ≠ .active then return
  unwind Lifecycle.rollback c.depth
  alter fun c => { c with phase := .idle }
  trace true .abort ""

/-- Abort anything in flight and refuse further work. -/
def close : Act (Connection × Services) TxnError Unit := do
  abort
  alter fun c => { c with phase := .closed }

/-- Elevate the entries of a stack, bottom first, until one fails. Gives the stack with the
elevated entries, and the elevated top. -/
def elevateStack (config : Config) (table : Table) :
    List Savepoint → Act Services TxnError (List Savepoint × Except TxnError (Option Txn))
  | [] => return ([], .ok none)
  | s :: rest => do
    match ← elevateStack config table rest with
    | (rest, .error e) => return (s :: rest, .error e)
    | (rest, .ok parent) =>
      match ← Act.attempt (Lifecycle.elevateUnder config s.txn table parent) with
      | .error e => return (s :: rest, .error e)
      | .ok t => return ({ s with txn := t } :: rest, .ok (some t))

/-- Make the leaf writable for `table`, and every entry below it first. Gives the new leaf. -/
def elevate (config : Config) (table : Table) : Act (Connection × Services) TxnError Txn := do
  trace false .elevate table
  ensureActive config
  let (stack, result) ← Act.onSnd (elevateStack config table (← get).1.stack)
  alter fun c => { c with stack }
  if let .error e := result then throw e
  trace true .elevate table
  leaf

end Connection

end NestedTxn
