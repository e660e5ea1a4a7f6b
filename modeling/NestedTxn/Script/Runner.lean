import NestedTxn.Database.Session
import NestedTxn.Script.Command

/-!
# Running scripts

* `Runner`: the sessions that scripts opened, and the current one, which is among them.
* `Runner.run`: runs a script and gives one line of output per command. Failures of sessions are
  part of the output; a line that is no command ends the script.
-/

namespace NestedTxn

/-- The sessions of the scripts that run against one database. -/
structure Runner where
  /-- The sessions by name. -/
  sessions : List (String × Connection)
  /-- The name of the session that commands run in. -/
  current : String
  /-- That session was opened. -/
  current_open : (sessions.lookup current).isSome
deriving DecidableEq

/-- Why a script ended early: a line that is no command. -/
structure BadLine where
  /-- The place of the line in its script. -/
  number : Nat
  /-- The line, without comment and the white space around it. -/
  text : String
deriving DecidableEq

/-- The words on a line that is no command: where it is, and what is wrong with it. -/
def BadLine.chain (e : BadLine) : List String :=
  ["line " ++ toString e.number ++ ": " ++ e.text, "unrecognized command"]

namespace Runner

/-- The name of the first session. -/
def firstSession : String := "main"

/-- A runner with a single session. -/
def start (db : Database) : Runner where
  sessions := [(firstSession, db.session firstSession)]
  current := firstSession
  current_open := rfl

/-- The session called `name`, if it was opened. -/
def session? (r : Runner) (name : String) : Option Connection :=
  r.sessions.lookup name

/-- The sessions with `c` in the place of the one called `name`. -/
def replace (sessions : List (String × Connection)) (name : String) (c : Connection) :
    List (String × Connection) :=
  sessions.map fun e => if e.1 = name then (name, c) else e

/-- No session is opened or closed by that. -/
theorem lookup_replace_isSome (sessions : List (String × Connection)) (name : String)
    (c : Connection) (key : String) :
    ((replace sessions name c).lookup key).isSome = (sessions.lookup key).isSome := by
  induction sessions with
  | nil => rfl
  | cons e sessions ih =>
    have hname : (if e.1 = name then (name, c) else e).1 = e.1 := by
      split
      · next h => exact h.symm
      · rfl
    rw [replace, List.map_cons, ← replace, List.lookup_cons, List.lookup_cons, hname]
    cases key == e.1 with
    | true => rfl
    | false => exact ih

/-- Put `c` in the place of the session called `name`. -/
def setSession (r : Runner) (name : String) (c : Connection) : Runner where
  sessions := replace r.sessions name c
  current := r.current
  current_open := (lookup_replace_isSome ..).trans r.current_open

/-- The sessions after the one called `name` was opened, if there was none. -/
def opened (r : Runner) (db : Database) (name : String) : List (String × Connection) :=
  if (r.session? name).isSome then r.sessions else r.sessions ++ [(name, db.session name)]

theorem lookup_opened_isSome (r : Runner) (db : Database) (name : String) :
    ((r.opened db name).lookup name).isSome := by
  unfold opened
  split
  · next h => exact h
  · simp [List.lookup_append]

/-- Switch to the session called `name`; it is opened if there is none. -/
def switchTo (r : Runner) (db : Database) (name : String) : Runner where
  sessions := r.opened db name
  current := name
  current_open := r.lookup_opened_isSome db name

/-- What a call of a session answers, in words. -/
def words {α : Type} (text : α → String) (a : Act (Connection × Services) SessionError α) :
    Act (Connection × Services) BadLine String := do
  match ← Act.attempt a with
  | .ok x => return text x
  | .error e => return "error: " ++ e.message

/-- Run a command in a session, and give its answer in words. -/
def answer (db : Database) : Command → Act (Connection × Services) BadLine String
  | .newSession _ => return "ok"
  | .begin =>
    words (fun t => "txn " ++ toString t.id) (Session.onConnection (Connection.activeTxn db.config))
  | .savepoint name => depth (Session.onConnection (Connection.setSavepoint db.config name))
  | .release name => depth (Session.onConnection (Connection.releaseSavepoint db.config name))
  | .rollbackTo name => depth (Session.onConnection (Connection.rollbackTo db.config name))
  | .put table key value =>
    words (fun _ => "ok") (Session.put db table (Utf8.encode key) (Utf8.encode value))
  | .delete table key => words (fun _ => "ok") (Session.delete db table (Utf8.encode key))
  | .get key => words (·.elim "(none)" Utf8.lossy) (Session.get db (Utf8.encode key))
  | .commit =>
    words (·.elim "nothing to commit" fun ts => "committed at " ++ toString ts)
      (Session.onConnection (Connection.commit db.config))
  | .abort => words (fun _ => "aborted") (Session.onConnection Connection.abort)
where
  /-- A depth in words. -/
  depth (a : Act (Connection × Services) SessionError Nat) :
      Act (Connection × Services) BadLine String :=
    words (fun d => "depth " ++ toString d) a

/-- The current session. -/
def currentSession (r : Runner) : Connection := (r.session? r.current).get r.current_open

/-- Run a call on the current session. -/
def inCurrent (a : Act (Connection × Services) BadLine String) :
    Act (Runner × Services) BadLine String :=
  a.zoom (fun s => (s.1.currentSession, s.2))
    (fun t s => (s.1.setSession s.1.current t.1, t.2)) id

/-- Run a command. -/
def execute (db : Database) (command : Command) : Act (Runner × Services) BadLine String := do
  if let .newSession name := command then
    modify fun s => (s.1.switchTo db name, s.2)
  inCurrent (answer db command)

/-- Run the lines of a script, and give their output. -/
def runLines (db : Database) : List Line → Act (Runner × Services) BadLine (List String)
  | [] => return []
  | line :: rest => do
    match line.command with
    | none => throw ⟨line.number, line.text⟩
    | some command =>
      let output ← execute db command
      let shown := "[" ++ (← get).1.current ++ "] " ++ line.text ++ " -> " ++ output
      return shown :: (← runLines db rest)

/-- Run a script, and give one line of output per command. -/
def run (db : Database) (script : String) : Act (Runner × Services) BadLine (List String) :=
  runLines db (Line.ofScript script)

/-- Run scripts one after the other. A script that ends early does not keep the next from
running. -/
def runAll {ε : Type} (db : Database) :
    List String → Act (Runner × Services) ε (List (Except BadLine (List String)))
  | [] => return []
  | script :: rest => do
    let first ← Act.attempt (run db script)
    return first :: (← runAll db rest)

end Runner

end NestedTxn
