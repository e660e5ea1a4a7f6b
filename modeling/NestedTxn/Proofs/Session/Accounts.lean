import NestedTxn.Proofs.Connection.Accurate
import NestedTxn.Proofs.Session.Effects
import NestedTxn.Proofs.Session.Unlocked

/-!
# The counters of a database

* `Session.Call.run_accurate`: after a call of a session the counters are right again, and the stack
  is a copy of the records, whatever does not answer.
* `Database.State.Accurate`: that holds for all sessions of a database at once. Calls, the writers of
  resolutions and health checks keep it (`Accurate.run`, `Accurate.healthCheck`).
* `Database.Action`, `Database.State.perform`: a run in which health checks may happen as well.
* `Database.State.counters_perform`: after any run on fresh services, the counters are the numbers of
  recorded transactions, of committed ones, of those rolled back, and of those with a destination.
-/

namespace NestedTxn

namespace Session

open Services

variable {max : Nat} {others : Txn → Prop}

/-- The part of a call that concerns the connection. -/
theorem Call.connects_accurate (config : Config) (others : Txn → Prop) (c : Call) :
    Act.Keeps (Connection.StaysAccurate config.maxAncestorDepth.toNat others)
      (c.connects config) := by
  have hsteps := Connection.accurate_stepwise config others
  cases c with
  | begin | get _ | scan _ _ => exact hsteps.activeTxn.map _
  | put table _ _ | delete table _ => exact (hsteps.elevate table).map _
  | savepoint name => exact (hsteps.setSavepoint name).map _
  | release name => exact (hsteps.releaseSavepoint name).map _
  | rollbackTo name => exact (hsteps.rollbackTo name).map _
  | commit => exact (Connection.commit_accurate config others).map _
  | abort => exact hsteps.abort.map _
  | close => exact hsteps.close.map _

theorem write_sameBooks (db : Database) (table : Table) (key : Key) (value : Option Bytes)
    (p : Connection × Services) :
    ((write db table key value).exec p).2.1 = ((Connection.elevate db.config table).exec p).2.1 ∧
      ((Connection.elevate db.config table).exec p).2.2.SameBooks
        ((write db table key value).exec p).2.2 := by
  rcases exec_write_eq db p table key value with ⟨e, q, hx, _, hw⟩ | ⟨leaf, q, hx, _, hw⟩ <;>
    rw [hx, hw] <;> exact ⟨rfl, rfl, fun _ _ _ => rfl⟩

/-- What a call does after that changes no record, counts none, and leaves the connection alone. -/
theorem Call.run_sameBooks (db : Database) (c : Call) (p : Connection × Services) :
    ((c.run db).exec p).2.1 = ((c.connects db.config).exec p).2.1 ∧
      ((c.connects db.config).exec p).2.2.SameBooks ((c.run db).exec p).2.2 := by
  cases c with
  | begin | savepoint _ | release _ | rollbackTo _ | commit | abort | close =>
    rw [run, connects, Act.exec_discard, Act.exec_map, onConnection, Act.exec_wrap]
    exact ⟨rfl, .refl _⟩
  | put table key value =>
    rw [run, connects, Act.exec_discard, Act.exec_map]
    exact write_sameBooks db table key (some value) p
  | delete table key =>
    rw [run, connects, Act.exec_discard, Act.exec_map]
    exact write_sameBooks db table key none p
  | get key =>
    rw [run, connects, Act.exec_discard, Act.exec_map]
    exact (withFilter_quiet (SnapshotFilter.read_quiet key) rfl rfl).imp_right (·.toSameBooks)
  | scan start stop =>
    rw [run, connects, Act.exec_discard, Act.exec_map]
    exact (withFilter_quiet (SnapshotFilter.scan_quiet start stop) rfl rfl).imp_right
      (·.toSameBooks)

theorem Call.run_accurate (db : Database) (others : Txn → Prop) (c : Call) :
    Act.Keeps (Connection.StaysAccurate db.config.maxAncestorDepth.toNat others) (c.run db) := by
  intro p h
  obtain ⟨hconn, hbooks⟩ := c.run_sameBooks db p
  exact (c.connects_accurate db.config others p h).sameBooks hconn hbooks

end Session

namespace Database

open Services

/-- The services after a health check are those after a fresh connection has begun its transaction
and rolled it back. -/
theorem healthCheck_sameBooks {ε : Type} (db : Database) (s : Services) :
    ((Connection.ensureActive db.config >>= fun _ =>
      Connection.dropTop Lifecycle.rollback).exec (db.session "", s)).2.2.SameBooks
        ((db.healthCheck : Act Services ε Bool).exec s).2 := by
  have hidle : (db.session "").phase = .idle := rfl
  rcases hx : (Lifecycle.beginDefault db.config).exec s with ⟨e | t, s₁⟩
  · simpa [Connection.ensureActive, healthCheck, Act.exec_bind, Act.exec_map, hidle, hx] using
      sameBooks_reported s₁ (.healthCheckFailed e)
  · have hleaf : ∀ c : Connection, (c.push c.name t).stack = ⟨c.name, t⟩ :: c.stack := fun _ => rfl
    rcases hy : (Lifecycle.rollback t).exec s₁ with ⟨e | x, s₂⟩
    · simpa [Connection.ensureActive, Connection.dropTop, healthCheck, Act.exec_bind, Act.exec_map,
        hidle, hx, Connection.leaf, Connection.leaf?, hleaf, hy] using
        sameBooks_reported s₂ (.healthCheckFailed e)
    · simpa [Connection.ensureActive, Connection.dropTop, healthCheck, Act.exec_bind, hidle, hx,
        Connection.leaf, Connection.leaf?, hleaf, hy] using SameBooks.refl s₂

namespace State

/-- The transactions on the stacks of the other sessions. -/
def elsewhere (w : State) (i : Nat) (t : Txn) : Prop :=
  ∃ j, j ≠ i ∧ ∃ e ∈ (w.sessions j).stack, e.txn = t

/-- Every session counts by the records, and their stacks share nothing. -/
def Accurate (max : Nat) (w : State) : Prop :=
  ∀ i, Connection.Accurate max (w.elsewhere i) (w.view i)

variable {max : Nat} {db : Database} {w : State} {s : Services}

/-- The services may be replaced by others in which the entries of all stacks are the records. -/
theorem Accurate.withServices (h : w.Accurate max) (hs : s.ledger.Sound max) (hb : s.Booked)
    (hf : ∀ i, ∀ e ∈ (w.sessions i).stack, s.ledger.find? e.txn.id = some e.txn) :
    ({ w with services := s } : State).Accurate max := fun i =>
  { sound := hs
    seated := (h i).seated_of_found (hf i)
    booked := hb
    copied := hf i
    found := fun _ ⟨j, _, e, he, heq⟩ => heq ▸ hf j e he
    absent := (h i).absent }

/-- A session and the services may become those of `p`, in which the entries of the other stacks are
the records still. -/
theorem Accurate.put (h : w.Accurate max) {i : Nat} {p : Connection × Services}
    (hp : Connection.Accurate max (w.elsewhere i) p) : (w.put i p).Accurate max := by
  have hfound : ∀ j, ∀ e ∈ ((w.put i p).sessions j).stack,
      p.2.ledger.find? e.txn.id = some e.txn := by
    intro j e he
    by_cases hj : j = i
    · subst hj
      rw [sessions_put] at he
      exact hp.copied e he
    · rw [sessions_put_of_ne hj] at he
      exact hp.found e.txn ⟨j, hj, e, he, rfl⟩
  intro j
  refine ⟨hp.sound, ?_, hp.booked, hfound j, fun _ ⟨k, _, e, he, heq⟩ => heq ▸ hfound k e he, ?_⟩
  · by_cases hj : j = i
    · subst hj
      rw [view_put]
      exact hp.seated
    · have hother := hfound j
      change ((w.put i p).sessions j).Seated p.2.ledger
      rw [sessions_put_of_ne hj] at hother ⊢
      exact (h j).seated_of_found hother
  · rintro t ⟨k, hkj, e, he, rfl⟩
    change e.txn.id ∉ ((w.put i p).sessions j).ids
    by_cases hj : j = i
    · subst hj
      rw [sessions_put_of_ne hkj] at he
      rw [sessions_put]
      exact hp.absent e.txn ⟨k, hkj, e, he, rfl⟩
    · rw [sessions_put_of_ne hj]
      by_cases hk : k = i
      · subst hk
        rw [sessions_put] at he
        -- the entries of session `j` are not on the new stack
        intro hid
        obtain ⟨d, hd, hde⟩ := List.mem_map.1 hid
        exact hp.absent d.txn ⟨j, hj, d, hd, rfl⟩ (hde ▸ List.mem_map_of_mem he)
      · rw [sessions_put_of_ne hk] at he
        exact (h j).absent e.txn ⟨k, hkj, e, he, rfl⟩

theorem Accurate.call (h : w.Accurate db.config.maxAncestorDepth.toNat) (i : Nat)
    (c : Session.Call) : (w.call db i c).2.Accurate db.config.maxAncestorDepth.toNat := by
  rw [State.call]
  have hcall := c.run_accurate db (w.elsewhere i) (w.view i) (h i)
  generalize ((c.run db).exec (w.view i)).2 = p at hcall
  exact h.put hcall

/-- Nothing that counts happens to the services. -/
theorem Accurate.quiet (h : w.Accurate max) {a : Act Services Empty Unit}
    (ha : Act.Keeps SameBooks a) : (w.onServices a).Accurate max :=
  fun i => (h i).sameBooks rfl (ha w.services)

theorem Accurate.run (h : w.Accurate db.config.maxAncestorDepth.toNat) (es : List Event) :
    (w.run db es).2.Accurate db.config.maxAncestorDepth.toNat :=
  run_keeps h (fun _ i c _ hw => hw.call i c)
    (fun _ hw => hw.quiet fun s => (runWriters_quiet s).toSameBooks)
    fun _ hw => hw.quiet fun s => (db.shutdown_quiet s).toSameBooks

/-- A health check begins a transaction that is on no stack, and counts it. -/
theorem Accurate.healthCheck (h : w.Accurate db.config.maxAncestorDepth.toNat) :
    (w.onServices (discard db.healthCheck)).Accurate db.config.maxAncestorDepth.toNat := by
  let others : Txn → Prop := fun t => ∃ i, ∃ e ∈ (w.sessions i).stack, e.txn = t
  have hfresh : Connection.Accurate db.config.maxAncestorDepth.toNat others
      (db.session "", w.services) :=
    { sound := (h 0).sound
      seated := ⟨fun _ => rfl, .nil⟩
      booked := (h 0).booked
      copied := fun _ he => absurd he List.not_mem_nil
      found := fun _ ⟨i, e, he, heq⟩ => heq ▸ (h i).copied e he
      absent := fun _ _ => List.not_mem_nil }
  have hsteps := Connection.accurate_stepwise db.config others
  have hprobe := Act.Keeps.bind hsteps.trans hsteps.ensureActive (fun _ => hsteps.rollbackTop) _
    hfresh
  have hdone : Connection.Accurate _ others
      (_, ((db.healthCheck : Act Services Empty Bool).exec w.services).2) :=
    hprobe.sameBooks rfl (healthCheck_sameBooks db w.services)
  rw [onServices, Act.exec_discard]
  exact h.withServices hdone.sound hdone.booked fun i e he => hdone.found e.txn ⟨i, e, he, rfl⟩

end State

/-! ## Runs with health checks -/

/-- Something that happens to a database, or a look at its health. -/
inductive Action where
  | event (e : Event)
  | healthCheck

namespace State

variable {db : Database} {w : State}

/-- The state after one action. -/
def act (db : Database) (w : State) : Action → State
  | .event e => (w.run db [e]).2
  | .healthCheck => w.onServices (discard db.healthCheck)

/-- The state after some actions, one after the other. -/
def perform (db : Database) (w : State) (as : List Action) : State := as.foldl (act db) w

theorem Accurate.perform (h : w.Accurate db.config.maxAncestorDepth.toNat) (as : List Action) :
    (w.perform db as).Accurate db.config.maxAncestorDepth.toNat := by
  induction as generalizing w with
  | nil => exact h
  | cons a as ih =>
    cases a with
    | event e => exact ih (h.run [e])
    | healthCheck => exact ih h.healthCheck

/-- A database on services that record and count nothing is accurate before any call. -/
theorem opened_accurate (db : Database) (names : Nat → String) {s : Services}
    (ht : s.ledger.txns = []) (hc : s.counters = {}) :
    (opened db names s).Accurate db.config.maxAncestorDepth.toNat := fun _ =>
  { sound := Ledger.sound_nil ht
    seated := ⟨fun _ => rfl, .nil⟩
    booked := booked_of_nil ht hc
    copied := fun _ he => absurd he List.not_mem_nil
    found := fun _ ⟨_, _, _, he, _⟩ => absurd he List.not_mem_nil
    absent := fun _ _ => List.not_mem_nil }

/-- On services that record and count nothing at first, whatever the clock gives and whenever the
stores do not answer: after every run of calls of any sessions, of the writers of resolutions and of
health checks, every transaction is recorded once, and the counters are the numbers of recorded
transactions, of committed ones, of those rolled back, and of those with a destination. -/
theorem counters_perform {config : Config} {s t : Services} (htxns : s.ledger.txns = [])
    (hcounters : s.counters = {}) {db : Database} (hstart : (start config).exec s = (.ok db, t))
    (names : Nat → String) (as : List Action) :
    let after := ((opened db names t).perform db as).services
    (after.ledger.txns.map (·.id)).Nodup ∧
      after.counters.begun = after.ledger.txns.length ∧
      after.counters.committed = after.ledger.txns.countP (·.state = .committed) ∧
      after.counters.rolledBack = after.ledger.txns.countP (·.state = .rolledBack) ∧
      after.counters.elevations = after.ledger.txns.countP (·.destination.isSome) := by
  obtain ⟨_, new, turns, log, rfl, _⟩ := start_eq hstart
  have hopened := opened_accurate db names
    (s := { s with queues := s.queues ++ new, turns, log }) htxns hcounters
  have hbooked := (hopened.perform as 0).booked
  exact ⟨hbooked.nodup, (hbooked.counted .begun _ rfl).trans (congrFun List.countP_true _),
    hbooked.counted .committed _ rfl, hbooked.counted .rolledBack _ rfl,
    hbooked.counted .elevations _ rfl⟩

/-- The clock repeats a reading and misses one, and the ledger does not answer its fifth call. -/
def troubled : Services where
  clock := .scripted [some 1, some 1, none, some 2, some 3, some 4, some 5, some 6]
  ledger := { switch := .lapsing 4 }

/-- A health check meets the reading that is in use, a savepoint the missing one. The first put
elevates only the bottom entry, since the ledger does not answer for the top one. -/
def troubledActions : List Action :=
  [.event (.call 0 .begin), .healthCheck, .event (.call 0 (.savepoint "a")),
    .event (.call 0 (.savepoint "a")), .event (.call 0 (.put "t" [1] [2])),
    .event (.call 0 (.put "t" [1] [2])), .healthCheck, .event (.call 1 (.put "t" [2] [3])),
    .event (.call 0 (.rollbackTo "a")), .event (.call 0 .commit)]

/-- The services after that. -/
def troubledEnd : Services :=
  ((opened usual (fun _ => "s") ((start {}).exec troubled).2).perform usual troubledActions).services

/-- Two of the five transactions are rolled back, one of them by a health check, and three may
write. -/
theorem counters_perform_troubled :
    troubledEnd.counters.begun = 5 ∧ troubledEnd.counters.committed = 1 ∧
      troubledEnd.counters.rolledBack = 2 ∧ troubledEnd.counters.elevations = 3 := by
  have hstart : (start {}).exec troubled = (.ok usual, ((start {}).exec troubled).2) := rfl
  obtain ⟨_, hbegun, hcommitted, hrolledBack, helevations⟩ :=
    counters_perform rfl rfl hstart (fun _ => "s") troubledActions
  have hlength : troubledEnd.ledger.txns.length = 5 := by decide +kernel
  have hone : troubledEnd.ledger.txns.countP (·.state = .committed) = 1 := by decide +kernel
  have htwo : troubledEnd.ledger.txns.countP (·.state = .rolledBack) = 2 := by decide +kernel
  have hthree : troubledEnd.ledger.txns.countP (·.destination.isSome) = 3 := by decide +kernel
  exact ⟨hbegun.trans hlength, hcommitted.trans hone, hrolledBack.trans htwo,
    helevations.trans hthree⟩

end State

end Database

end NestedTxn
