import NestedTxn.Config
import NestedTxn.Txn.Basic

/-!
# Connections

* `Phase`: whether a connection is idle, active or closed.
* `Savepoint`: an entry of a connection's stack, a name with the transaction it stands for.
* `Connection`: the stack of one connection, top entry first. The bottom entry holds its outermost
  transaction, the top entry the leaf that statements run under.
* `Connection.below?`: how many entries lie below the nearest entry of a name.
-/

namespace NestedTxn

/-- Phase of a connection. -/
inductive Phase where
  /-- No transaction begun yet, or the last one finished. -/
  | idle
  /-- A transaction is on the stack. -/
  | active
  /-- Closed for good. -/
  | closed
deriving DecidableEq

/-- The name of a phase. -/
def Phase.name : Phase → String
  | .idle => "Idle"
  | .active => "Active"
  | .closed => "Closed"

/-- An entry of a connection's stack. -/
structure Savepoint where
  /-- The name that releases and rollbacks refer to. -/
  name : String
  /-- The transaction, as it was when the entry was last written. -/
  txn : Txn
deriving DecidableEq

/-- The transaction of one connection, with its nested savepoints. -/
structure Connection where
  /-- Name of the connection and of its bottom entry. -/
  name : String
  /-- Idle, active or closed. -/
  phase : Phase := .idle
  /-- The entries, top first. -/
  stack : List Savepoint := []
  /-- Whether savepoints are suppressed. -/
  suppressed : Bool := false
deriving DecidableEq

namespace Connection

/-- An idle connection. -/
def ofName (config : Config) (name : String) : Connection where
  name
  suppressed := config.ignoreSavepoints

/-- The number of entries. -/
def depth (c : Connection) : Nat := c.stack.length

/-- The transaction that statements run under. -/
def leaf? (c : Connection) : Option Txn := c.stack.head?.map (·.txn)

/-- The outermost transaction of the connection. -/
def bottom? (c : Connection) : Option Txn := c.stack.getLast?.map (·.txn)

/-- Whether the leaf may write. -/
def allowsWrites (c : Connection) : Bool := c.leaf?.any (·.allowsWrites)

/-- Suppress savepoints, or stop doing so. -/
def suppress (c : Connection) (on : Bool) : Connection := { c with suppressed := on }

/-- Put an entry on top of the stack. -/
def push (c : Connection) (name : String) (txn : Txn) : Connection :=
  { c with stack := ⟨name, txn⟩ :: c.stack }

/-- Take the top entry off the stack. -/
def pop (c : Connection) : Connection := { c with stack := c.stack.tail }

/-- The number of entries below the nearest entry called `name`, counted from the top. -/
def below? (name : String) : List Savepoint → Option Nat
  | [] => none
  | s :: rest => if s.name = name then some rest.length else below? name rest

/-- A connection whose stack ran empty is idle again. -/
def settle (c : Connection) : Connection :=
  if c.stack.isEmpty ∧ c.phase = .active then { c with phase := .idle } else c

end Connection

end NestedTxn
