import NestedTxn.Connection.Calls
import NestedTxn.Visibility.SnapshotFilter

/-!
# Databases

* `Database`: settings and the queue of resolutions, shared by all sessions.
* `Database.start`, `openFresh`: a database on the present services, without or with a look at
  its settings. `Database.tryOut`: one on services of its own.
* `Database.healthCheck`, `shutdown`, `session`: its calls.
-/

namespace NestedTxn

/-- What the sessions of a database share. -/
structure Database where
  /-- The settings. -/
  config : Config
  /-- The number of the queue of resolutions, if outcomes are cached. -/
  queue : Option Nat
deriving DecidableEq

namespace Database

open Services

variable {ε : Type}

/-- A database on the given services. -/
def start (config : Config) : Act Services OpenFault Database := do
  let queue ←
    if config.readResolution then some <$> openQueue config.resolverQueueCapacity else pure none
  report (.databaseOpened config.readResolution config.defaultIsolation)
  return { config, queue }

/-- A database on fresh services, unless its settings are refused. -/
def openFresh (config : Config) : Act Services OpenFault Database := do
  match config.validate with
  | .error fault => throw (.config fault)
  | .ok _ => start config

/-- Begin and roll back a throwaway transaction to prove that the services answer. -/
def healthCheck (db : Database) : Act Services ε Bool := do
  let probe : Act Services TxnError Unit := do
    let t ← Lifecycle.beginDefault db.config
    Lifecycle.rollback t
  match ← Act.attempt probe with
  | .ok _ => return true
  | .error e =>
    report (.healthCheckFailed e)
    return false

/-- Open a database on services of its own, which share nothing but counters and events with the
present ones, and check its health. -/
def tryOut (config : Config) : Act Services OpenFault Bool :=
  Act.ofExec fun s =>
    let r := (openFresh config >>= healthCheck).exec { counters := s.counters, log := s.log }
    (r.1, { s with counters := r.2.counters, log := r.2.log })

/-- Write back the waiting resolutions and accept no more. -/
def shutdown (db : Database) : Act Services ε Unit := do
  if let some h := db.queue then shutQueue h

/-- A new session. -/
def session (db : Database) (name : String) : Connection :=
  .ofName db.config name

/-- Where the sessions report newly found outcomes. -/
def sink (db : Database) : Option Sink :=
  db.queue.map .queue

end Database

end NestedTxn
