import NestedTxn.Proofs.Connection.Batch
import NestedTxn.Proofs.Connection.Success

/-!
# Closed connections

A closed connection stays closed and without entries, whatever is called, and its calls use no
service but the log.

* `Connection.Shut`: closed, without entries. `close_shut`: what a close that succeeds leaves.
* `Connection.Call.passesShut`: the calls that a shut connection does not refuse. While savepoints
  are suppressed these are the calls of savepoints, too: they look at the suppression first.
* `Connection.run_shut`: a call of a shut connection, as one equation.
* `Connection.shut_absorbing`: in every run, what every call after a close that succeeded does.
-/

namespace NestedTxn

namespace Connection

open Services

/-- Closed, without entries. -/
structure Shut (c : Connection) : Prop where
  phase : c.phase = .closed
  stack : c.stack = []

variable {config : Config} {p : Connection × Services} {name : String}

theorem Shut.suppress {c : Connection} (h : c.Shut) (on : Bool) : (c.suppress on).Shut :=
  ⟨h.phase, h.stack⟩

/-- A close that succeeds takes every entry off the stack. -/
theorem close_shut (hv : p.1.Vacant) (h : (close.exec p).1 = .ok ()) :
    (close.exec p).2.1.Shut := by
  rw [close] at h ⊢
  rcases ha : abort.exec p with ⟨e | x, q⟩
  · rw [Act.exec_bind_error ha] at h
    cases h
  · rw [Act.exec_bind_ok ha, exec_alter]
    refine ⟨rfl, ?_⟩
    have hq := abort_ok ha
    split at hq
    · exact congrArg Connection.stack hq
    · next hidle => exact (congrArg Connection.stack hq).trans (hv hidle)

/-! ## The calls of a shut connection -/

/-- The calls that a shut connection does not refuse. -/
def Call.passesShut (suppressed : Bool) : Call → Bool
  | abort | close | .suppress _ => true
  | setSavepoint _ | rollbackTo _ => suppressed
  | releaseSavepoint name => suppressed && name ≠ batchName
  | activeTxn | activateNested .. | commit | elevate _ => false

/-- The connection after its suppression was turned on or off, if the name asks for it. -/
def heeded (c : Connection) (name : String) (on : Bool) : Connection :=
  if name = batchName then c.suppress on else c

/-- A shut connection after a call. -/
def Call.leavesShut (c : Connection) : Call → Connection
  | .suppress on => c.suppress on
  | setSavepoint name => c.heeded name true
  | releaseSavepoint name => c.heeded name false
  | activeTxn | activateNested .. | rollbackTo _ | commit | abort | close | elevate _ => c

theorem Shut.heeded {c : Connection} (h : c.Shut) (name : String) (on : Bool) :
    (c.heeded name on).Shut := by
  unfold Connection.heeded
  split
  · exact h.suppress on
  · exact h

/-- Savepoints that are suppressed already stay so. -/
theorem heeded_of_suppressed {c : Connection} (h : c.suppressed = true) (name : String) :
    c.heeded name true = c := by
  rw [heeded, suppress, ← h, ite_self]

theorem heeded_suppressed (c : Connection) (name : String) :
    (c.heeded name false).suppressed = (c.suppressed && name ≠ batchName) := by
  unfold heeded
  split <;> simp [*, suppress]

/-- `a` comes to the answer `x` and leaves the connection as `c`. No service is used but the
log. -/
def LogsOnly {α : Type} (a : Act (Connection × Services) TxnError α) (p : Connection × Services)
    (x : Except TxnError α) (c : Connection) : Prop :=
  ∃ log, a.exec p = (x, c, { p.2 with log })

section

variable {α β : Type} {a : Act (Connection × Services) TxnError α}
  {f : α → Act (Connection × Services) TxnError β} {c : Connection}

theorem LogsOnly.of_same {x : Except TxnError α} (h : a.exec p = (x, p)) : LogsOnly a p x p.1 :=
  ⟨p.2.log, h⟩

theorem LogsOnly.error {e : TxnError} (h : a.exec p = (.error e, p)) :
    LogsOnly (a >>= f) p (.error e) p.1 :=
  .of_same (Act.exec_bind_error h)

theorem LogsOnly.discard {x : Except TxnError α} (h : LogsOnly a p x c) :
    LogsOnly (discard a) p (x.map fun _ => ()) c := by
  obtain ⟨log, hx⟩ := h
  exact ⟨log, by rw [Act.exec_discard, hx]⟩

/-- Only whether it succeeds. -/
theorem LogsOnly.discard_ite {q : Prop} [Decidable q] {x : α} {e : TxnError}
    (h : LogsOnly a p (if q then .ok x else .error e) c) :
    LogsOnly (Functor.discard a) p (if q then .ok () else .error e) c := by
  have hd := h.discard
  by_cases hq : q
  · rw [if_pos hq] at hd ⊢
    exact hd
  · rw [if_neg hq] at hd ⊢
    exact hd

/-- A look at the connection goes first. -/
theorem LogsOnly.get {g : Connection × Services → Act (Connection × Services) TxnError β}
    {x : Except TxnError β} (h : LogsOnly (g p) p x c) : LogsOnly (get >>= g) p x c := by
  obtain ⟨log, hx⟩ := h
  exact ⟨log, by rw [Act.exec_bind_ok (Act.exec_get p), hx]⟩

/-- A report goes first. -/
theorem LogsOnly.trace {g : Unit → Act (Connection × Services) TxnError β}
    {x : Except TxnError β} {done : Bool} {call : ConnectionCall} {subject : String}
    (h : ∀ s : Services, LogsOnly (g ()) (p.1, s) x c) :
    LogsOnly (trace done call subject >>= g) p x c := by
  obtain ⟨log, hx⟩ := h (p.2.reported (.connection p.1 done call subject))
  exact ⟨log, by rw [Act.exec_bind_ok (exec_trace _ _ _ p), hx]; rfl⟩

/-- The suppression is turned on or off first, if the name asks for it. -/
theorem LogsOnly.heed {g : Unit → Act (Connection × Services) TxnError β}
    {x : Except TxnError β} {on : Bool} (h : LogsOnly (g ()) (p.1.heeded name on, p.2) x c) :
    LogsOnly (heed name on >>= g) p x c := by
  obtain ⟨log, hx⟩ := h
  refine ⟨log, ?_⟩
  rw [Connection.heed]
  rw [heeded] at hx
  split at hx <;> simp only [*, if_true, if_false]
  · rw [Act.exec_bind_ok (exec_alter _ p), hx]
  · rw [pure_bind, hx]

end

theorem exec_find_shut (h : p.1.Shut) : (find name).exec p = (.error .closed, p) := by
  rw [find, Act.exec_bind_ok (Act.exec_get p)]
  simp [h.phase]

theorem activeTxn_shut (h : p.1.Shut) : LogsOnly (activeTxn config) p (.error .closed) p.1 :=
  .error (exec_ensureActive_closed h.phase)

theorem activateNested_shut (h : p.1.Shut) (outer : Txn) (additive : Bool) (table : Option Table) :
    LogsOnly (activateNested config outer additive table) p (.error .closed) p.1 := by
  refine .of_same ?_
  rw [activateNested, Act.exec_bind_ok (Act.exec_get p), h.phase]
  rfl

theorem commit_shut (h : p.1.Shut) : LogsOnly (commit config) p (.error .closed) p.1 := by
  rw [commit_eq]
  refine .trace fun s => .get ?_
  dsimp only
  rw [h.phase]
  exact .of_same rfl

theorem abort_shut (h : p.1.Shut) : LogsOnly abort p (.ok ()) p.1 := by
  rw [abort_eq]
  refine .trace fun s => .get ?_
  rw [if_pos (by rw [h.phase]; nofun)]
  exact .of_same rfl

theorem close_again (h : p.1.Shut) : LogsOnly close p (.ok ()) p.1 := by
  obtain ⟨log, hx⟩ := abort_shut h
  have hclosed : ({ p.1 with phase := .closed } : Connection) = p.1 := by rw [← h.phase]
  exact ⟨log, by rw [close, Act.exec_bind_ok hx, exec_alter, hclosed]⟩

theorem elevate_shut (h : p.1.Shut) (table : Table) :
    LogsOnly (elevate config table) p (.error .closed) p.1 :=
  .trace fun _ => .error (exec_ensureActive_closed h.phase)

/-- Refused, unless savepoints are suppressed. The name `batchName` suppresses them even so. -/
theorem setSavepoint_shut (h : p.1.Shut) (name : String) :
    LogsOnly (setSavepoint config name) p (if p.1.suppressed then .ok 1 else .error .closed)
      (p.1.heeded name true) := by
  cases hsup : p.1.suppressed with
  | true =>
    rw [if_pos rfl, heeded_of_suppressed hsup]
    exact .of_same (setSavepoint_suppressed hsup)
  | false =>
    rw [setSavepoint_eq, if_neg nofun]
    refine .get ?_
    rw [if_neg (by simp [hsup])]
    exact .heed (.trace fun s => .error (exec_ensureActive_closed (h.heeded name true).phase))

theorem releaseSavepoint_shut (h : p.1.Shut) (name : String) :
    LogsOnly (releaseSavepoint config name) p
      (if p.1.suppressed && name ≠ batchName then .ok 0 else .error .closed)
      (p.1.heeded name false) := by
  rw [releaseSavepoint_eq, ← heeded_suppressed]
  refine .heed (.get ?_)
  dsimp only
  split
  · exact .of_same rfl
  · exact .trace fun s => .error (Act.exec_bind_error (exec_find_shut (h.heeded name false)))

theorem rollbackTo_shut (h : p.1.Shut) (name : String) :
    LogsOnly (rollbackTo config name) p (if p.1.suppressed then .ok 0 else .error .closed) p.1 := by
  cases hsup : p.1.suppressed with
  | true => exact .of_same (rollbackTo_suppressed hsup)
  | false =>
    refine .get ?_
    rw [if_neg (by simp [hsup])]
    exact .trace fun s => .error (Act.exec_bind_error (exec_find_shut h))

/-- A call of a shut connection. -/
theorem run_shut (h : p.1.Shut) (call : Call) :
    LogsOnly (call.run config) p
      (if call.passesShut p.1.suppressed then .ok () else .error .closed)
      (call.leavesShut p.1) := by
  cases call with
  | activeTxn => exact (activeTxn_shut h).discard
  | activateNested outer additive table => exact activateNested_shut h outer additive table
  | setSavepoint name => exact (setSavepoint_shut h name).discard_ite
  | releaseSavepoint name => exact (releaseSavepoint_shut h name).discard_ite
  | rollbackTo name => exact (rollbackTo_shut h name).discard_ite
  | commit => exact (commit_shut h).discard
  | abort => exact abort_shut h
  | close => exact close_again h
  | elevate table => exact (elevate_shut h table).discard
  | suppress on => exact ⟨p.2.log, rfl⟩

theorem Call.leavesShut_shut {c : Connection} (h : c.Shut) (call : Call) :
    (call.leavesShut c).Shut := by
  cases call with
  | setSavepoint name => exact h.heeded name true
  | releaseSavepoint name => exact h.heeded name false
  | suppress on => exact h.suppress on
  | activeTxn | activateNested outer additive table | rollbackTo name | commit | abort | close
  | elevate table => exact h

/-! ## Runs -/

namespace Watched

variable {w : Watched} {m : Moment}

theorem vacant_after (h : w.view.1.Vacant) : (w.after config m).view.1.Vacant := by
  cases m with
  | meanwhile s => exact h
  | call c =>
    by_cases hc : ∃ on, c = .suppress on
    · obtain ⟨on, rfl⟩ := hc
      exact h
    · exact (c.run_batch config (fun on hon => hc ⟨on, hon⟩) h).1

theorem vacant_run (ms : List Moment) (h : w.view.1.Vacant) : (w.run config ms).view.1.Vacant := by
  induction ms generalizing w with
  | nil => exact h
  | cons m ms ih => exact ih (vacant_after h)

theorem shut_after (h : w.view.1.Shut) : (w.after config m).view.1.Shut := by
  cases m with
  | meanwhile s => exact h
  | call c =>
    obtain ⟨log, hx⟩ : LogsOnly (c.run config) w.view _ _ := run_shut h c
    rw [after, hx]
    exact c.leavesShut_shut h

theorem shut_run (ms : List Moment) (h : w.view.1.Shut) : (w.run config ms).view.1.Shut := by
  induction ms generalizing w with
  | nil => exact h
  | cons m ms ih => exact ih (shut_after h)

theorem run_append (w : Watched) (ms ms' : List Moment) :
    w.run config (ms ++ ms') = (w.run config ms).run config ms' := by
  induction ms generalizing w with
  | nil => rfl
  | cons m ms ih => exact ih _

end Watched

/-- In every run of a connection, whatever does not answer: once a close has succeeded, the
connection is closed and without entries for ever. A call leaves it as it was, but for its
suppression, and all services but the log. An abort and a close succeed, and every other call fails
as the connection is closed, except that a call of a savepoint succeeds without effect while
savepoints are suppressed (but for a release of `batchName`). -/
theorem shut_absorbing {config : Config} (name : String) (s : Services) (ms later : List Moment)
    (hclose : ((Call.close.run config).exec
      ((Watched.start config name s).run config ms).view).1 = .ok ()) :
    let p := ((Watched.start config name s).run config (ms ++ .call .close :: later)).view
    p.1.phase = .closed ∧ p.1.stack = [] ∧ ∀ call : Call, ∃ log,
      (call.run config).exec p =
        (if call.passesShut p.1.suppressed then .ok () else .error .closed,
          call.leavesShut p.1, { p.2 with log }) := by
  intro p
  have hv : ((Watched.start config name s).run config ms).view.1.Vacant :=
    Watched.vacant_run ms fun _ => rfl
  have hshut : p.1.Shut := by
    change ((Watched.start config name s).run config (ms ++ .call .close :: later)).view.1.Shut
    rw [Watched.run_append]
    exact Watched.shut_run later (close_shut hv hclose)
  exact ⟨hshut.phase, hshut.stack, fun call => run_shut hshut call⟩

/-- A connection with a savepoint is closed, and asked for a batch savepoint. -/
def refusedBatch : Watched :=
  (Watched.start {} "c" {}).run {}
    ([.call (.setSavepoint "a")] ++ .call .close :: [.call (.setSavepoint batchName)])

/-- The general rule at this run: a commit is refused, and changes nothing. -/
theorem shut_absorbing_commit :
    refusedBatch.view.1.phase = .closed ∧ refusedBatch.view.1.stack = [] ∧
      ∃ log, (Call.commit.run {}).exec refusedBatch.view =
        (.error .closed, refusedBatch.view.1, { refusedBatch.view.2 with log }) := by
  have hclose : ((Call.close.run {}).exec
      ((Watched.start {} "c" {}).run {} [.call (.setSavepoint "a")]).view).1 = .ok () := rfl
  obtain ⟨hphase, hstack, hcall⟩ :=
    shut_absorbing "c" {} [.call (.setSavepoint "a")] [.call (.setSavepoint batchName)] hclose
  exact ⟨hphase, hstack, hcall .commit⟩

/-- The batch savepoint was refused, as the connection is closed, and the next savepoint is not. -/
theorem savepoint_not_refused :
    ((Call.close.run {}).exec (Watched.start {} "c" {}).view).1 = .ok () ∧
      ∃ p, ((setSavepoint {} batchName).exec
          ((Watched.start {} "c" {}).run {} [.call .close]).view) = (.error .closed, p) ∧
        p.1.phase = .closed ∧ ((setSavepoint {} "a").exec p).1 = .ok 1 :=
  ⟨rfl, _, rfl, rfl, rfl⟩

end Connection

end NestedTxn
