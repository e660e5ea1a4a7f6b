import NestedTxn.Proofs.UndoLog.Reading

/-!
# Runs refine runs of the undo log

* `Session.Call.Plain`: calls that the undo log is about. Scans are not, nor are savepoints with the
  name that switches savepoints off.
* `UndoLog.Settled`: the relation between a database and the log of its sessions, when no call is
  under way. Every event keeps it (`Settled.call`, `Settled.run`), and a database that was opened on
  fresh services has it (`settled_opened`).
* `Database.State.get_eq_read`: after every run of any number of sessions, a get answers what the
  log reads.
-/

namespace NestedTxn

/-- A call that the undo log is about. -/
def Session.Call.Plain : Session.Call → Prop
  | .scan _ _ => False
  | .savepoint name | .release name | .rollbackTo name => name ≠ Connection.batchName
  | _ => True

/-- An event that the undo log is about. -/
def Database.Event.Plain : Database.Event → Prop
  | .call _ c => c.Plain
  | .drain | .shutdown => True

namespace UndoLog

open Connection Services

variable {ts : Nat → Timestamp} {clock : Clock} {max : Nat} {w : Database.State} {r : UndoLog}
  {i : Nat}

/-! ## Timestamps that are taken -/

theorem taken_write (key : Key) (value : Option Bytes) :
    (r.write ts i key value).taken = (r.begin ts i).taken := by
  rw [write]
  split <;> rfl

theorem taken_release (name : String) : r.taken ≤ (r.release ts i name).taken := by
  rw [release]
  split
  · exact Nat.le_refl _
  · dsimp only
    split <;> exact Nat.le_add_right _ _

theorem taken_step (r : UndoLog) (i : Nat) (c : Session.Call) :
    r.taken ≤ (r.step ts max i c).taken := by
  cases c with
  | begin | get | scan => exact taken_begin
  | put | delete => exact taken_begin.trans_eq (taken_write _ _).symm
  | savepoint name => exact taken_begin.trans (taken_savepoint name)
  | release name => exact taken_release name
  | rollbackTo name =>
    rw [step, rollbackTo]
    split
    · exact Nat.le_refl _
    · next m below _ =>
      exact (taken_begin (r := (r.undo i _).setMarks i below)).trans (taken_savepoint name)
  | commit =>
    rw [step, commit]
    split
    · exact Nat.le_refl _
    · exact Nat.le_succ _
  | abort | close => exact Nat.le_refl _

theorem taken_run (r : UndoLog) (es : List Database.Event) : r.taken ≤ (r.run ts max es).taken := by
  induction es generalizing r with
  | nil => exact Nat.le_refl _
  | cons e es ih =>
    cases e with
    | call i c => exact (taken_step r i c).trans (ih _)
    | drain | shutdown => exact ih r

/-! ## Events -/

/-- The database `w` does what the log `r` says, and no call is under way. -/
structure Settled (ts : Nat → Timestamp) (clock : Clock) (max : Nat) (w : Database.State)
    (r : UndoLog) : Prop where
  refines : Refines ts clock max w r
  rests : ∀ i, (w.sessions i).Rests

theorem Settled.put (h : Settled ts clock max w r) {r' : UndoLog} {q : Connection × Services}
    (hq : Leaves ts clock max w i r' q) : Settled ts clock max (w.put i q) r' := by
  refine ⟨hq.refines, fun j => ?_⟩
  by_cases hj : j = i
  · rw [hj, Database.State.sessions_put]
    exact hq.rests
  · rw [Database.State.sessions_put_of_ne hj]
    exact h.rests j

/-- What only writes markers goes unnoticed. -/
theorem Settled.onServices (h : Settled ts clock max w r) {a : Act Services Empty Unit}
    (ha : Act.Keeps (Services.Marked max) a) : Settled ts clock max (w.onServices a) r := by
  obtain ⟨hsane, _, halike⟩ := ha w.services h.refines.orderly.sane
  exact ⟨h.refines.alike halike hsane, h.rests⟩

section

variable {db : Database} (hts : StrictMono ts) (hiso : db.config.defaultIsolation = .snapshot)
  (hmax : 0 < db.config.maxAncestorDepth.toNat)
  (h : Settled ts clock db.config.maxAncestorDepth.toNat w r)
include hts hiso hmax h

/-- Every call does what the log does. -/
theorem Settled.call (i : Nat) {c : Session.Call} (hc : c.Plain)
    (hsup : Supplies clock ts (r.step ts db.config.maxAncestorDepth.toNat i c).taken) :
    Settled ts clock db.config.maxAncestorDepth.toNat (w.call db i c).2
      (r.step ts db.config.maxAncestorDepth.toNat i c) := by
  have href := h.refines
  have hrest := h.rests i
  refine h.put ?_
  cases c with
  | begin =>
    rw [Session.Call.run, Act.exec_map]
    exact href.activeTxn hts hiso hrest hsup
  | put table key value =>
    rw [Session.Call.run, Act.exec_map]
    exact href.write hts hiso hrest rfl (by rwa [step, taken_write] at hsup) table key (some value)
  | delete table key =>
    rw [Session.Call.run, Act.exec_map]
    exact href.write hts hiso hrest rfl (by rwa [step, taken_write] at hsup) table key none
  | get key =>
    obtain ⟨q, hx, hq⟩ := href.exec_get hts hiso hrest hsup key
    rw [Session.Call.run, Act.exec_map, hx]
    exact hq
  | scan => cases hc
  | savepoint name =>
    rw [Session.Call.run, Act.exec_map]
    exact href.setSavepoint hts hiso hrest hc hsup
  | release name =>
    rw [Session.Call.run, Act.exec_map]
    exact href.releaseSavepoint hrest hmax hc hsup
  | rollbackTo name =>
    rw [Session.Call.run, Act.exec_map]
    exact href.rollbackTo hts hiso hrest hc hsup
  | commit =>
    rw [Session.Call.run, Act.exec_map]
    exact href.commit hrest hmax hsup
  | abort =>
    obtain ⟨q, hx, hq, _⟩ := href.exec_abort hrest hsup
    rw [Session.Call.run, Act.exec_map, Session.onConnection, Act.exec_wrap, hx]
    exact hq
  | close =>
    rw [Session.Call.run, Act.exec_map]
    exact href.close hrest hsup

/-- Every run does what the log does. -/
theorem Settled.run (es : List Database.Event) (hes : ∀ e ∈ es, e.Plain)
    (hsup : Supplies clock ts (r.run ts db.config.maxAncestorDepth.toNat es).taken) :
    Settled ts clock db.config.maxAncestorDepth.toNat (w.run db es).2
      (r.run ts db.config.maxAncestorDepth.toNat es) := by
  induction es generalizing w r with
  | nil => exact h
  | cons e es ih =>
    have hes' : ∀ e ∈ es, e.Plain := fun e he => hes e (List.mem_cons_of_mem _ he)
    cases e with
    | call i c =>
      have hc : c.Plain := hes _ (List.mem_cons_self ..)
      exact ih (h.call hts hiso hmax i hc (hsup.mono (taken_run _ es))) hes' hsup
    | drain => exact ih (h.onServices (Services.runWriters_marked _)) hes' hsup
    | shutdown => exact ih (h.onServices (db.shutdown_marked _)) hes' hsup

end

section

variable (ts : Nat → Timestamp) (max : Nat) {db : Database}
  (hsave : db.config.ignoreSavepoints = false) {s : Services} (hs : s.Fresh)
  (hlocks : s.rows.locks.held = []) (hpois : s.rows.poisoned = false) (names : Nat → String)
include hsave hs hlocks hpois

/-- A database that was opened on fresh services has no writes. -/
theorem refines_opened : Refines ts s.clock max (.opened db names s) (.opened names) where
  orderly := Database.State.opened_orderly db names hs max
  tracks _ := ⟨rfl, hsave, by simp [Database.State.opened, opened, Database.session, ofName], .nil⟩
  sorted _ := .nil
  since _ _ hm := by cases hm
  serials _ hx := by cases hx
  trace := by
    rw [show (Database.State.opened db names s).services.rows.versions = [] from hs.versions]
    exact .nil
  recorded id t ht := by
    rw [Ledger.find?, show (Database.State.opened db names s).services.ledger.txns = [] from
      hs.txns] at ht
    cases ht
  reading := rfl
  taken := rfl
  locks := hlocks
  poisoned := hpois

theorem settled_opened : Settled ts s.clock max (.opened db names s) (.opened names) :=
  ⟨refines_opened ts max hsave hs hlocks hpois names, fun _ hp => by cases hp⟩

end

end UndoLog

namespace Database

namespace State

open UndoLog

/-- In every run of any number of sessions, a get answers what the undo log of the run reads, unless
the session was closed. -/
theorem get_eq_read {config : Config} (hiso : config.defaultIsolation = .snapshot)
    (hsave : config.ignoreSavepoints = false) (hmax : 0 < config.maxAncestorDepth.toNat)
    {s t : Services} (hs : s.Fresh) (hlocks : s.rows.locks.held = [])
    (hpois : s.rows.poisoned = false) {db : Database}
    (hstart : (start config).exec s = (.ok db, t)) (names : Nat → String) {es : List Event}
    (hes : ∀ e ∈ es, e.Plain) {ts : Nat → Timestamp} (hts : StrictMono ts) {r : UndoLog}
    (hr : r = (UndoLog.opened names).run ts config.maxAncestorDepth.toNat es) (i : Nat)
    (hsup : Supplies s.clock ts (r.begin ts i).taken) (key : Key) :
    (((opened db names t).run db es).2.call db i (.get key)).1 =
      if (r.clients i).closed then .error (.txn .closed)
      else .ok (.value ((r.begin ts i).read i key)) := by
  obtain ⟨rfl, hfresh, halike⟩ := start_ok hstart hs
  subst hr
  rw [halike.clock] at hsup
  have h := settled_opened ts db.config.maxAncestorDepth.toNat hsave hfresh
    (by rw [← halike.locks, hlocks]) (by rw [← halike.poisoned, hpois]) names
  have hrun := h.run hts hiso hmax es hes (hsup.mono taken_begin)
  obtain ⟨q, hx, _⟩ := hrun.refines.exec_get hts hiso (hrun.rests i) hsup key
  rw [call, Session.Call.run, Act.exec_map, hx]
  split <;> rfl

/-- A session commits after a rollback to a savepoint, while another one is about to roll back. -/
def undoneEvents : List Event :=
  [.call 0 (.put "t" [1] [2]), .call 0 (.savepoint "a"), .call 0 (.put "t" [1] [3]),
    .call 0 (.rollbackTo "a"), .call 2 (.put "t" [1] [4]), .call 0 .commit]

/-- What was undone and what is uncommitted elsewhere is not read. -/
theorem get_eq_read_undone :
    ∃ db t, (start {}).exec {} = (.ok db, t) ∧ Supplies Clock.standard (· + 1) 6 ∧
      (((opened db toString t).run db undoneEvents).2.call db 1 (.get [1])).1 =
        .ok (.value (some [2])) := by
  have hts : StrictMono fun n : Nat => n + 1 := fun _ _ h => Nat.succ_lt_succ h
  have hsup : Supplies Clock.standard (· + 1) 6 := supplies_standard (by decide)
  have hes : ∀ e ∈ undoneEvents, e.Plain := by
    simp [undoneEvents, Event.Plain, Session.Call.Plain, Connection.batchName]
  have hiso : ({} : Config).defaultIsolation = .snapshot := rfl
  refine ⟨_, _, rfl, hsup, ?_⟩
  exact get_eq_read hiso rfl (by decide) Services.fresh_default rfl rfl rfl toString hes hts rfl 1
    hsup [1]

end State

end Database

end NestedTxn
