import Mathlib.Logic.Function.Basic
import NestedTxn.Database.Session

/-!
# Runs of sessions

* `Session.Call`: one call of a session, with `Session.Answer` for what it gives.
* `Database.State`: the sessions of one database, by number, and the services.
* `Database.Event`: a call of some session, or a moment at which the writers of resolutions run or
  are shut down. `Database.State.run`: a list of events, one after the other, with the answers of
  the calls. What every event keeps, a run keeps (`run_keeps`).
-/

namespace NestedTxn

namespace Session

/-- One call of a session. -/
inductive Call where
  | begin
  | put (table : Table) (key : Key) (value : Bytes)
  | delete (table : Table) (key : Key)
  | get (key : Key)
  | scan (start : Key) (stop : Option Key)
  | savepoint (name : String)
  | release (name : String)
  | rollbackTo (name : String)
  | commit
  | abort
  | close

/-- What a call of a session gives. -/
inductive Answer where
  /-- Nothing but that it succeeded. -/
  | done
  /-- The leaf. -/
  | txn (t : Txn)
  /-- The value of a key. -/
  | value (v : Option Bytes)
  /-- The rows of a range. -/
  | rows (rows : List (Key × Bytes))
  /-- The depth of the stack. -/
  | depth (n : Nat)
  /-- The timestamp of a commit. -/
  | timestamp (ts : Option Timestamp)
deriving DecidableEq

/-- The call, with its answer. -/
def Call.run (db : Database) : Call → Act (Connection × Services) SessionError Answer
  | begin => .txn <$> onConnection (Connection.activeTxn db.config)
  | put table key value => (fun _ => .done) <$> Session.put db table key value
  | delete table key => (fun _ => .done) <$> Session.delete db table key
  | get key => .value <$> Session.get db key
  | scan start stop => .rows <$> Session.scan db start stop
  | savepoint name => .depth <$> onConnection (Connection.setSavepoint db.config name)
  | release name => .depth <$> onConnection (Connection.releaseSavepoint db.config name)
  | rollbackTo name => .depth <$> onConnection (Connection.rollbackTo db.config name)
  | commit => .timestamp <$> onConnection (Connection.commit db.config)
  | abort => (fun _ => .done) <$> onConnection Connection.abort
  | close => (fun _ => .done) <$> onConnection Connection.close

end Session

namespace Database

/-- The sessions of a database with the services. -/
structure State where
  /-- The connection of each session, by the number of the session. -/
  sessions : Nat → Connection
  /-- The services. -/
  services : Services

/-- Something that happens to a database. -/
inductive Event where
  /-- Session `i` makes a call. -/
  | call (i : Nat) (c : Session.Call)
  /-- The writers of resolutions run until nothing waits. -/
  | drain
  /-- The database is shut down. -/
  | shutdown

namespace State

/-- The sessions of a database on the given services, before any call. -/
def opened (db : Database) (names : Nat → String) (s : Services) : State where
  sessions i := db.session (names i)
  services := s

/-- Session `i` with the services. -/
def view (w : State) (i : Nat) : Connection × Services := (w.sessions i, w.services)

/-- The state after session `i` and the services became those of `p`. -/
def put (w : State) (i : Nat) (p : Connection × Services) : State where
  sessions := Function.update w.sessions i p.1
  services := p.2

@[simp] theorem view_put (w : State) (i : Nat) (p : Connection × Services) :
    (w.put i p).view i = p := by
  simp [view, put]

@[simp] theorem put_put (w : State) (i : Nat) (p q : Connection × Services) :
    (w.put i p).put i q = w.put i q := by
  simp [put]

@[simp] theorem put_view (w : State) (i : Nat) : w.put i (w.view i) = w := by
  simp [view, put]

@[simp] theorem sessions_put (w : State) (i : Nat) (p : Connection × Services) :
    (w.put i p).sessions i = p.1 := by
  simp [put]

theorem sessions_put_of_ne {w : State} {i j : Nat} (h : j ≠ i) (p : Connection × Services) :
    (w.put i p).sessions j = w.sessions j := by
  simp [put, h]

/-- A call of session `i`. -/
def call (db : Database) (w : State) (i : Nat) (c : Session.Call) :
    Except SessionError Session.Answer × State :=
  let r := (c.run db).exec (w.view i)
  (r.1, w.put i r.2)

/-- An operation on the services alone. -/
def onServices (w : State) (a : Act Services Empty Unit) : State :=
  { w with services := (a.exec w.services).2 }

/-- The answers of the calls among the events, and the state after them. -/
def run (db : Database) (w : State) :
    List Event → List (Except SessionError Session.Answer) × State
  | [] => ([], w)
  | .call i c :: es =>
    let r := w.call db i c
    let rest := r.2.run db es
    (r.1 :: rest.1, rest.2)
  | .drain :: es => (w.onServices Services.runWriters).run db es
  | .shutdown :: es => (w.onServices db.shutdown).run db es

/-- What every event keeps, a run keeps. -/
theorem run_keeps {P : State → Prop} {db : Database} {es : List Event} {w : State} (h : P w)
    (hcall : ∀ w i c, .call i c ∈ es → P w → P (w.call db i c).2)
    (hdrain : ∀ w, P w → P (w.onServices Services.runWriters))
    (hshutdown : ∀ w, P w → P (w.onServices db.shutdown)) : P (w.run db es).2 := by
  induction es generalizing w with
  | nil => exact h
  | cons e es ih =>
    have hcall' : ∀ w i c, .call i c ∈ es → P w → P (w.call db i c).2 :=
      fun w i c hm => hcall w i c (List.mem_cons_of_mem _ hm)
    cases e with
    | call i c => exact ih (hcall w i c (List.mem_cons_self ..) h) hcall'
    | drain => exact ih (hdrain w h) hcall'
    | shutdown => exact ih (hshutdown w h) hcall'

end State

end Database

end NestedTxn
