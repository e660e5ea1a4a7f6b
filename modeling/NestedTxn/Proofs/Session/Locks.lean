import NestedTxn.Proofs.Session.Unlocked

/-!
# Who holds the row locks

A write gives its lock back whether or not it stored its version. But giving it back is a call of
the row store, which may be off. Then the lock stays with the leaf that took it.

* `Session.Taking`: a lock that a write took, and whether it came back. `Session.Call.taking?`: the
  lock that a call takes.
* `Session.holder?`: the last taking of a row decides who holds its lock.
* `Session.Call.owner?_run`, `Session.Call.run_rowLocked`: what a call does to the locks, and when a
  lock is in its way.
* `Database.State.takings`: the locks that are taken in a run. `Database.State.owner?_run`: they
  decide who holds which lock.
* `Database.State.rowLocked_iff`: a lock is held between calls exactly if it was not given back when
  it was last taken, and such locks alone refuse writes.
-/

namespace NestedTxn

namespace Session

open Services

/-- A lock that a write took. -/
structure Taking where
  /-- The row. -/
  key : Key
  /-- The leaf that wrote. -/
  owner : TxnId
  /-- Whether the row store answered when the lock was given back. -/
  returned : Bool
deriving DecidableEq

/-- Who holds the lock after the write. -/
def Taking.holder? (t : Taking) : Option TxnId := if t.returned then none else some t.owner

/-- The lock that a call takes. -/
def Call.taking? (db : Database) (p : Connection × Services) (c : Call) : Option Taking := do
  let (table, key, _) ← c.write?
  let leaf ← ((Connection.elevate db.config table).exec p).1.toOption
  if p.2.rows.grants key leaf.id then some ⟨key, leaf.id, p.2.rows.switch.answers 2⟩ else none

/-- Who holds the lock of `key` after the locks `ts` were taken one after the other, if `before`
held it at first. -/
def holder? (ts : List Taking) (key : Key) (before : Option TxnId) : Option TxnId :=
  ((ts.filter (·.key = key)).getLast?.map Taking.holder?).getD before

theorem holder?_append (ts us : List Taking) (key : Key) (before : Option TxnId) :
    holder? (ts ++ us) key before = holder? us key (holder? ts key before) := by
  rw [holder?, List.filter_append, List.getLast?_append, holder?, holder?]
  cases (us.filter (·.key = key)).getLast? <;> rfl

theorem holder?_singleton (t : Taking) (key : Key) (before : Option TxnId) :
    holder? [t] key before = if t.key = key then t.holder? else before := by
  by_cases h : t.key = key <;> simp [holder?, h]

/-- Locks that came back are not held. -/
theorem holder?_of_returned {ts : List Taking} (h : ∀ t ∈ ts, t.returned = true) (key : Key) :
    holder? ts key none = none := by
  rw [holder?]
  cases hl : (ts.filter (·.key = key)).getLast? with
  | none => rfl
  | some t => simp [Taking.holder?, h t (List.mem_filter.1 (List.mem_of_getLast? hl)).1]

/-- What a call does to the locks. -/
theorem Call.owner?_run (db : Database) (p : Connection × Services) (c : Call) (key : Key) :
    ((c.run db).exec p).2.2.rows.locks.owner? key =
      holder? (c.taking? db p).toList key (p.2.rows.locks.owner? key) := by
  cases hc : c.write? with
  | none =>
    have hnone : c.taking? db p = none := by simp [taking?, hc]
    rw [hnone, c.run_sameLocks db hc p]
    rfl
  | some args =>
    obtain ⟨table, written, value⟩ := args
    rw [exec_run_of_write hc]
    rcases exec_write_eq db p table written value with
      ⟨e, q, hx, hrows, hw⟩ | ⟨leaf, q, hx, hrows, hw⟩
    · have hnone : c.taking? db p = none := by simp [taking?, hc, hx, Except.toOption]
      rw [hw, hnone]
      exact congrArg (fun r : RowStore => r.locks.owner? key) hrows
    · rw [hw]
      refine (RowStore.owner?_tried _ _ _ _ _).trans ?_
      cases hg : p.2.rows.grants written leaf.id with
      | false =>
        have hnone : c.taking? db p = none := by simp [taking?, hc, hx, hg, Except.toOption]
        rw [hnone]
        simp [holder?]
      | true =>
        have hsome : c.taking? db p = some ⟨written, leaf.id, p.2.rows.switch.answers 2⟩ := by
          simp [taking?, hc, hx, hg, Except.toOption]
        rw [hsome, Option.toList_some, holder?_singleton]
        simp [Taking.holder?]

/-- A failure of the connection is not about a lock. -/
theorem map_onConnection_ne {α β : Type} (a : Act (Connection × Services) TxnError α) (f : α → β)
    (p : Connection × Services) (key : Key) :
    ((f <$> onConnection a).exec p).1 ≠ .error (.rowLocked key) := by
  rw [Act.exec_map, onConnection, Act.exec_wrap]
  rcases (a.exec p).1 with e | x <;> simp [Except.map]

theorem Call.run_ne_rowLocked (db : Database) (p : Connection × Services) {c : Call}
    (hc : c.write? = none) (key : Key) : ((c.run db).exec p).1 ≠ .error (.rowLocked key) := by
  cases c with
  | put | delete => cases hc
  | begin | savepoint | release | rollbackTo | commit | abort | close | get | scan =>
    exact map_onConnection_ne _ _ p key

/-- A call is refused because of a lock exactly if it writes, gets as far as the lock, and finds it
in the hands of another than its leaf. -/
theorem Call.run_rowLocked {db : Database} {p : Connection × Services} {c : Call} {key : Key} :
    ((c.run db).exec p).1 = .error (.rowLocked key) ↔
      ∃ table value leaf holder, c.write? = some (table, key, value) ∧
        ((Connection.elevate db.config table).exec p).1 = .ok leaf ∧
        p.2.rows.switch.answers 0 = true ∧ p.2.rows.locks.owner? key = some holder ∧
        holder ≠ leaf.id := by
  cases hc : c.write? with
  | none =>
    refine ⟨fun h => absurd h (c.run_ne_rowLocked db p hc key), ?_⟩
    rintro ⟨_, _, _, _, h, _⟩
    cases h
  | some args =>
    obtain ⟨table, written, value⟩ := args
    rw [exec_run_of_write hc]
    rcases exec_write_eq db p table written value with
      ⟨e, q, hx, _, hw⟩ | ⟨leaf, q, hx, _, hw⟩ <;> rw [hw]
    · refine ⟨fun h => by simp [Except.map] at h, ?_⟩
      rintro ⟨_, _, _, _, h, hleaf, _⟩
      cases h
      rw [hx] at hleaf
      cases hleaf
    · have hmap : (p.2.rows.outcome written leaf.id).map (fun _ => Answer.done) =
          .error (.rowLocked key) ↔
          p.2.rows.outcome written leaf.id = .error (.rowLocked key) := by
        cases p.2.rows.outcome written leaf.id <;> simp [Except.map]
      dsimp only
      rw [hmap, RowStore.outcome_eq_rowLocked]
      constructor
      · rintro ⟨rfl, hon, holder, howner, hne⟩
        exact ⟨table, value, leaf, holder, rfl, by rw [hx], hon, howner, hne⟩
      · rintro ⟨_, _, _, holder, h, hleaf, hon, howner, hne⟩
        cases h
        rw [hx] at hleaf
        cases hleaf
        exact ⟨rfl, hon, holder, howner, hne⟩

end Session

namespace Database

namespace State

open Session

/-- The locks that are taken in a run, in order. -/
def takings (db : Database) (w : State) : List Event → List Taking
  | [] => []
  | .call i c :: es => (c.taking? db (w.view i)).toList ++ (w.call db i c).2.takings db es
  | .drain :: es => (w.onServices Services.runWriters).takings db es
  | .shutdown :: es => (w.onServices db.shutdown).takings db es

/-- The locks that are taken in a run decide who holds which lock after it. -/
theorem owner?_run (db : Database) (w : State) (es : List Event) (key : Key) :
    (w.run db es).2.services.rows.locks.owner? key =
      holder? (w.takings db es) key (w.services.rows.locks.owner? key) := by
  induction es generalizing w with
  | nil => rfl
  | cons e es ih =>
    cases e with
    | call i c =>
      have hcall : (w.call db i c).2.services.rows.locks.owner? key =
          holder? (c.taking? db (w.view i)).toList key (w.services.rows.locks.owner? key) :=
        c.owner?_run db (w.view i) key
      rw [takings, holder?_append, ← hcall]
      exact ih _
    | drain =>
      have hsame : (w.onServices Services.runWriters).services.rows.locks = w.services.rows.locks :=
        (Services.runWriters_quiet w.services).locks
      rw [takings, ← hsame]
      exact ih _
    | shutdown =>
      have hsame : (w.onServices db.shutdown).services.rows.locks = w.services.rows.locks :=
        (db.shutdown_quiet w.services).locks
      rw [takings, ← hsame]
      exact ih _

/-- In every run of a database, whatever does not answer, a row is locked between calls exactly if
its lock was not given back when it was last taken. The leaf that took it holds it, and a write is
refused exactly if its leaf is another one. So while the row store answers whenever a lock is given
back, no row is locked between calls, and no write is refused. -/
theorem rowLocked_iff (db : Database) (names : Nat → String) {s : Services}
    (hs : ∀ key, s.rows.locks.owner? key = none) (es : List Event) :
    let w := ((opened db names s).run db es).2
    let taken := (opened db names s).takings db es
    (∀ key, w.services.rows.locks.owner? key = holder? taken key none) ∧
    (∀ i c key, (w.call db i c).1 = .error (.rowLocked key) ↔
      ∃ table value leaf holder, c.write? = some (table, key, value) ∧
        ((Connection.elevate db.config table).exec (w.view i)).1 = .ok leaf ∧
        w.services.rows.switch.answers 0 = true ∧ holder? taken key none = some holder ∧
        holder ≠ leaf.id) ∧
    ((∀ t ∈ taken, t.returned = true) →
      (∀ key, w.services.rows.locks.owner? key = none) ∧
        ∀ i c key, (w.call db i c).1 ≠ .error (.rowLocked key)) := by
  intro w taken
  have howner : ∀ key, w.services.rows.locks.owner? key = holder? taken key none := by
    intro key
    have hrun := (opened db names s).owner?_run db es key
    rwa [show (opened db names s).services.rows.locks.owner? key = none from hs key] at hrun
  have hlocked : ∀ i c key, (w.call db i c).1 = .error (.rowLocked key) ↔
      ∃ table value leaf holder, c.write? = some (table, key, value) ∧
        ((Connection.elevate db.config table).exec (w.view i)).1 = .ok leaf ∧
        w.services.rows.switch.answers 0 = true ∧ holder? taken key none = some holder ∧
        holder ≠ leaf.id := by
    intro i c key
    rw [← howner key]
    exact Session.Call.run_rowLocked
  refine ⟨howner, hlocked, fun hback => ⟨fun key => ?_, fun i c key h => ?_⟩⟩
  · rw [howner, holder?_of_returned hback]
  · obtain ⟨_, _, _, _, _, _, _, hheld, _⟩ := (hlocked i c key).1 h
    rw [holder?_of_returned hback] at hheld
    cases hheld

/-- The row store was off when the version was to be stored, and the lock came back. -/
theorem rowLocked_iff_returned :
    ((lapsedOpen 1).run usual [.call 0 (.put "t" [1] [2])]).2.services.rows.locks.owner? [1] =
      none := by
  have hrun := rowLocked_iff usual (fun _ => "s") (s := ((start {}).exec
    { rows := { switch := .lapsing 1 } }).2) (fun _ => rfl) [.call 0 (.put "t" [1] [2])]
  exact (hrun.2.2 (by decide +kernel)).1 [1]

/-- Session 0 puts a value while the row store is off at the third call, and is closed. -/
def strandedRun : State :=
  ((lapsedOpen 2).run usual [.call 0 (.put "t" [1] [2]), .call 0 .close]).2

/-- The lock stays with the leaf of a session that is gone, and the row store is back for good:
other sessions cannot write to the row. -/
theorem rowLocked_stranded :
    (∀ n, strandedRun.services.rows.switch.answers n = true) ∧
      (strandedRun.sessions 0).phase = .closed ∧
      strandedRun.services.rows.locks.owner? [1] = some 1 ∧
      (strandedRun.call usual 1 (.put "t" [1] [3])).1 = .error (.rowLocked [1]) ∧
      (strandedRun.call usual 1 (.delete "t" [1])).1 = .error (.rowLocked [1]) := by
  refine ⟨fun n => ?_, rfl, by decide +kernel, rfl, rfl⟩
  change decide (3 + n ≠ 2) = true
  rw [decide_eq_true_eq]
  omega

end State

end Database

end NestedTxn
