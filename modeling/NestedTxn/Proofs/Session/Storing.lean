import NestedTxn.Proofs.Row.Outages
import NestedTxn.Proofs.Session.OwnWrites

/-!
# Writes while services come and go

A write takes the lock of the row, stores a version and gives the lock back. The row store may be
off at each of these calls, and on again at the next.

* `RowStore.grants`, `RowStore.accepts`: whether the lock is granted, and whether the version is
  stored then. `RowStore.tried`, `RowStore.outcome`: the rows after a write, and its answer.
* `Session.exec_store_eq`: a write comes to that, whatever the store does. `exec_write_eq` puts the
  elevation before it.
* `Database.State.failed_write_versions`: a write that fails stores nothing, unless all that failed
  was giving the lock back (`Session.Stranded`).
-/

namespace NestedTxn

namespace RowStore

/-- The row store answers, and nobody else holds the lock. -/
def grants (r : RowStore) (key : Key) (writer : TxnId) : Bool :=
  r.switch.answers 0 && (r.locks.take key writer).1

/-- With the lock in hand, the row store answers, and takes a version. -/
def accepts (r : RowStore) : Bool := r.switch.answers 1 && !r.poisoned

/-- The rows after a write. -/
def tried (r : RowStore) (key : Key) (value : Option Bytes) (writer : TxnId) : RowStore :=
  if r.grants key writer then
    let locks := (r.locks.take key writer).2
    { r with
      versions :=
        if r.accepts then { key, writer := some writer, value } :: r.versions else r.versions
      locks := if r.switch.answers 2 then locks.release key writer else locks
      switch := r.switch.advance.advance.advance }
  else { r with switch := r.switch.advance }

/-- What a write answers. A version that is not stored counts before a lock that is not given
back. -/
def outcome (r : RowStore) (key : Key) (writer : TxnId) : Except SessionError Unit :=
  if !r.switch.answers 0 then .error (.txn (.ofRows .switchedOff))
  else if !(r.locks.take key writer).1 then .error (.rowLocked key)
  else if !r.switch.answers 1 then .error (.txn (.ofRows .switchedOff))
  else if r.poisoned then .error (.txn (.ofRows .poisoned))
  else if !r.switch.answers 2 then .error (.txn (.ofRows .switchedOff))
  else .ok ()

variable {r : RowStore} {key : Key} {writer : TxnId}

theorem grants_iff :
    r.grants key writer = true ↔ r.switch.answers 0 = true ∧
      (r.locks.owner? key = none ∨ r.locks.owner? key = some writer) := by
  rw [grants, Bool.and_eq_true, RowLocks.take_fst]

/-- A write that succeeds has stored its version. -/
theorem outcome_eq_ok :
    r.outcome key writer = .ok () ↔
      r.grants key writer = true ∧ r.accepts = true ∧ r.switch.answers 2 = true := by
  unfold outcome grants accepts
  cases r.switch.answers 0 <;> cases (r.locks.take key writer).1 <;>
    cases r.switch.answers 1 <;> cases r.poisoned <;> cases r.switch.answers 2 <;> simp

/-- A write that is refused because of a lock found the lock in other hands. -/
theorem outcome_eq_rowLocked {key' : Key} :
    r.outcome key writer = .error (.rowLocked key') ↔
      key' = key ∧ r.switch.answers 0 = true ∧
        ∃ holder, r.locks.owner? key = some holder ∧ holder ≠ writer := by
  have htake : (r.locks.take key writer).1 = false ↔
      ∃ holder, r.locks.owner? key = some holder ∧ holder ≠ writer := by
    rw [← Bool.not_eq_true, RowLocks.take_fst]
    cases r.locks.owner? key <;> simp
  rw [← htake, outcome]
  cases r.switch.answers 0 <;> cases (r.locks.take key writer).1 <;>
    cases r.switch.answers 1 <;> cases r.poisoned <;> cases r.switch.answers 2 <;>
    simp [eq_comm]

/-- A write that stored its version fails only if the lock is not given back. -/
theorem outcome_of_accepted (hg : r.grants key writer = true) (ha : r.accepts = true)
    (hoff : r.switch.answers 2 = false) :
    r.outcome key writer = .error (.txn (.ofRows .switchedOff)) := by
  rw [grants, Bool.and_eq_true] at hg
  rw [accepts, Bool.and_eq_true, Bool.not_eq_true'] at ha
  simp [outcome, hg, ha, hoff]

theorem tried_versions (r : RowStore) (key : Key) (value : Option Bytes) (writer : TxnId) :
    (r.tried key value writer).versions =
      if r.grants key writer ∧ r.accepts then { key, writer := some writer, value } :: r.versions
      else r.versions := by
  unfold tried
  cases r.grants key writer <;> cases r.accepts <;> rfl

theorem tried_poisoned (r : RowStore) (key : Key) (value : Option Bytes) (writer : TxnId) :
    (r.tried key value writer).poisoned = r.poisoned := by
  unfold tried
  split <;> rfl

/-- A lock that is taken is free after the write, unless it could not be given back. -/
theorem owner?_tried (r : RowStore) (key other : Key) (value : Option Bytes) (writer : TxnId) :
    (r.tried key value writer).locks.owner? other =
      if r.grants key writer ∧ key = other then
        if r.switch.answers 2 then none else some writer
      else r.locks.owner? other := by
  unfold tried
  cases hg : r.grants key writer with
  | false => simp
  | true =>
    have howner := (grants_iff.1 hg).2
    have htaken : (r.locks.take key writer).2.owner? key = some writer := by
      rw [RowLocks.owner?_take]
      rcases howner with h | h <;> simp [h]
    cases r.switch.answers 2 with
    | true =>
      simp only [if_true, true_and, RowLocks.owner?_release, htaken, and_true]
      rw [RowLocks.owner?_take]
      split <;> rfl
    | false =>
      by_cases hk : key = other
      · simp [← hk, htaken]
      · simp [RowLocks.owner?_take, hk]

end RowStore

namespace Session

open Services

variable {db : Database} {p : Connection × Services}

/-- A call of the row store, as a function of the rows before it. -/
theorem exec_onRows_eq {α : Type} (call : Act RowStore RowFault α) (p : Connection × Services) :
    (onRows call).exec p =
      ((call.exec p.2.nextRows).1.mapError fun fault => .txn (.ofRows fault), p.1,
        p.2.withRows (call.exec p.2.nextRows).2) := by
  rw [onRows, Act.exec_onSnd, Act.exec_wrap, Services.exec_onRows]

theorem exec_take_eq (c : Connection) (s : Services) (r : RowStore) (key : Key) (writer : TxnId) :
    (onRows (RowStore.take key writer)).exec (c, s.withRows r) =
      if r.switch.answers 0 then
        (.ok (r.locks.take key writer).1, c, s.withRows
          { r with locks := (r.locks.take key writer).2, switch := r.switch.advance })
      else
        (.error (.txn (.ofRows .switchedOff)), c,
          s.withRows { r with switch := r.switch.advance }) := by
  rw [exec_onRows_eq]
  cases hon : r.switch.answers 0 with
  | true =>
    rw [RowStore.exec_take (r := (s.withRows r).nextRows) hon]
    rfl
  | false =>
    rw [RowStore.exec_take_off (r := (s.withRows r).nextRows) hon]
    rfl

theorem exec_add_eq (c : Connection) (s : Services) (r : RowStore) (v : RowVersion) :
    (onRows (RowStore.add v)).exec (c, s.withRows r) =
      (if !r.switch.answers 0 then .error (.txn (.ofRows .switchedOff))
        else if r.poisoned then .error (.txn (.ofRows .poisoned)) else .ok (), c,
        s.withRows { r with
          versions := if r.switch.answers 0 && !r.poisoned then v :: r.versions else r.versions
          switch := r.switch.advance }) := by
  rw [exec_onRows_eq]
  cases hon : r.switch.answers 0 with
  | false =>
    rw [RowStore.exec_add_off (r := (s.withRows r).nextRows) hon]
    rfl
  | true =>
    rw [RowStore.exec_add (r := (s.withRows r).nextRows) hon, nextRows_poisoned, withRows_rows]
    cases hp : r.poisoned <;> simp [nextRows, withRows, RowStore.push, hp]

theorem exec_release_eq (c : Connection) (s : Services) (r : RowStore) (key : Key)
    (writer : TxnId) :
    (onRows (RowStore.release key writer)).exec (c, s.withRows r) =
      (if r.switch.answers 0 then .ok () else .error (.txn (.ofRows .switchedOff)), c,
        s.withRows { r with
          locks := if r.switch.answers 0 then r.locks.release key writer else r.locks
          switch := r.switch.advance }) := by
  rw [exec_onRows_eq]
  cases hon : r.switch.answers 0 with
  | true =>
    rw [RowStore.exec_release (r := (s.withRows r).nextRows) hon]
    rfl
  | false =>
    rw [RowStore.exec_release_off (r := (s.withRows r).nextRows) hon]
    rfl

/-- What a write comes to, once the connection is elevated. -/
theorem exec_store_eq (p : Connection × Services) (key : Key) (value : Option Bytes)
    (writer : TxnId) :
    (store key value writer).exec p =
      (p.2.rows.outcome key writer, p.1, p.2.withRows (p.2.rows.tried key value writer)) := by
  obtain ⟨c, s⟩ := p
  change (store key value writer).exec (c, s.withRows s.rows) = _
  rw [store, Act.exec_bind, exec_take_eq]
  cases hon : s.rows.switch.answers 0 with
  | false => simp [RowStore.outcome, RowStore.tried, RowStore.grants, hon]
  | true =>
    cases hl : (s.rows.locks.take key writer).1 with
    | false =>
      -- a lock in other hands stays there
      have hlocks : (s.rows.locks.take key writer).2 = s.rows.locks := by
        rw [RowLocks.take] at hl ⊢
        split at hl
        · rfl
        · cases hl
      simp [RowStore.outcome, RowStore.tried, RowStore.grants, hon, hl, hlocks]
    | true =>
      simp only [if_true, Bool.not_true, Bool.false_eq_true, if_false]
      rw [Act.exec_bind, Act.exec_attempt, exec_add_eq]
      dsimp only
      rw [Act.exec_bind, Act.exec_attempt, exec_release_eq]
      simp only [Switch.answers_advance, Nat.zero_add, Nat.reduceAdd]
      cases h₁ : s.rows.switch.answers 1 <;> cases hp : s.rows.poisoned <;>
        cases h₂ : s.rows.switch.answers 2 <;>
        simp [RowStore.outcome, RowStore.tried, RowStore.grants, RowStore.accepts, hon, hl,
          h₁, hp, h₂]

/-- A write fails with its connection, or comes to what the rows make of it. The rows are those
before the write: the connection does not touch them. -/
theorem exec_write_eq (db : Database) (p : Connection × Services) (table : Table) (key : Key)
    (value : Option Bytes) :
    (∃ e q, (Connection.elevate db.config table).exec p = (.error e, q) ∧ q.2.rows = p.2.rows ∧
        (write db table key value).exec p = (.error (.txn e), q)) ∨
      ∃ leaf q, (Connection.elevate db.config table).exec p = (.ok leaf, q) ∧
        q.2.rows = p.2.rows ∧
        (write db table key value).exec p =
          (p.2.rows.outcome key leaf.id, q.1,
            q.2.withRows (p.2.rows.tried key value leaf.id)) := by
  have hrows := (Connection.elevate_shifts db.config table p).spares.rows
  rw [write_eq, Act.exec_bind, onConnection, Act.exec_wrap]
  rcases hx : (Connection.elevate db.config table).exec p with ⟨e | leaf, q⟩
  · rw [hx] at hrows
    exact .inl ⟨e, q, rfl, hrows, rfl⟩
  · rw [hx] at hrows
    exact .inr ⟨leaf, q, rfl, hrows, by rw [← hrows]; exact exec_store_eq q key value leaf.id⟩

/-- The table, the key and the value that a call writes. A delete writes no value. -/
def Call.write? : Call → Option (Table × Key × Option Bytes)
  | put table key value => some (table, key, some value)
  | delete table key => some (table, key, none)
  | _ => none

/-- A put and a delete are writes. -/
theorem Call.exec_run_of_write {c : Call} {table : Table} {key : Key} {value : Option Bytes}
    (hc : c.write? = some (table, key, value)) (db : Database) (p : Connection × Services) :
    (c.run db).exec p =
      (((write db table key value).exec p).1.map fun _ => .done,
        ((write db table key value).exec p).2) := by
  cases c <;> cases hc <;> exact Act.exec_map _ _ p

/-- A write as `leaf` whose version is stored and whose lock cannot be given back: the row store
answers when the lock is taken and when the version is added, and not at the call after that. -/
structure Stranded (db : Database) (p : Connection × Services) (table : Table) (key : Key)
    (leaf : Txn) : Prop where
  elevated : ((Connection.elevate db.config table).exec p).1 = .ok leaf
  granted : p.2.rows.grants key leaf.id = true
  accepted : p.2.rows.accepts = true
  unanswered : p.2.rows.switch.answers 2 = false

/-- What a write that fails has stored. -/
theorem write_error {table : Table} {key : Key} {value : Option Bytes} {e : SessionError}
    {q : Connection × Services} (h : (write db table key value).exec p = (.error e, q)) :
    (q.2.rows.versions = p.2.rows.versions ∧ ∀ leaf, ¬ Stranded db p table key leaf) ∨
      ∃ leaf, Stranded db p table key leaf ∧ e = .txn (.ofRows .switchedOff) ∧
        q.2.rows.versions = { key, writer := some leaf.id, value } :: p.2.rows.versions := by
  rcases exec_write_eq db p table key value with
    ⟨_, q', hx, hrows, hw⟩ | ⟨leaf, q', hx, hrows, hw⟩ <;> rw [hw] at h
  · cases h
    refine .inl ⟨congrArg RowStore.versions hrows, fun leaf hs => ?_⟩
    have hleaf := hs.elevated
    rw [hx] at hleaf
    cases hleaf
  · obtain ⟨houtcome, rfl⟩ := Prod.mk.inj h
    have hversions := p.2.rows.tried_versions key value leaf.id
    by_cases hst : p.2.rows.grants key leaf.id = true ∧ p.2.rows.accepts = true
    · rw [if_pos hst] at hversions
      have hoff : p.2.rows.switch.answers 2 = false := by
        by_contra hon
        rw [RowStore.outcome_eq_ok.2 ⟨hst.1, hst.2, by simpa using hon⟩] at houtcome
        cases houtcome
      rw [RowStore.outcome_of_accepted hst.1 hst.2 hoff] at houtcome
      cases houtcome
      exact .inr ⟨leaf, ⟨by rw [hx], hst.1, hst.2, hoff⟩, rfl, hversions⟩
    · rw [if_neg hst] at hversions
      refine .inl ⟨hversions, fun leaf' hs => hst ?_⟩
      have hleaf := hs.elevated
      rw [hx] at hleaf
      cases hleaf
      exact ⟨hs.granted, hs.accepted⟩

end Session

namespace Database

namespace State

/-- A put or a delete that fails has stored nothing, whatever did not answer, unless its version was
stored and only the lock could not be given back. Then the error says that the row store does not
answer, and exactly that version is new. -/
theorem failed_write_versions {db : Database} {w : State} {i : Nat} {c : Session.Call}
    {table : Table} {key : Key} {value : Option Bytes} {e : SessionError}
    (hc : c.write? = some (table, key, value)) (h : (w.call db i c).1 = .error e) :
    ((w.call db i c).2.services.rows.versions = w.services.rows.versions ∧
        ∀ leaf, ¬ Session.Stranded db (w.view i) table key leaf) ∨
      ∃ leaf, Session.Stranded db (w.view i) table key leaf ∧
        e = .txn (.ofRows .switchedOff) ∧
        (w.call db i c).2.services.rows.versions =
          { key, writer := some leaf.id, value } :: w.services.rows.versions := by
  have hrun := Session.Call.exec_run_of_write hc db (w.view i)
  dsimp only [call, put] at h ⊢
  rw [hrun] at h ⊢
  rcases hx : (Session.write db table key value).exec (w.view i) with ⟨e' | x, q⟩ <;>
    rw [hx] at h <;> cases h
  exact Session.write_error hx

/-- A database with the usual settings, over a row store that is off at its call number `n` only. -/
def lapsedOpen (n : Nat) : State :=
  opened usual (fun _ => "s") ((start {}).exec { rows := { switch := .lapsing n } }).2

/-- A put whose version was refused has stored nothing. -/
theorem failed_write_versions_refused :
    ((lapsedOpen 1).call usual 0 (.put "t" [1] [2])).2.services.rows.versions = [] := by
  have hfails : ((lapsedOpen 1).call usual 0 (.put "t" [1] [2])).1 =
      .error (.txn (.ofRows .switchedOff)) := rfl
  rcases failed_write_versions rfl hfails with ⟨hsame, _⟩ | ⟨leaf, hs, _⟩
  · exact hsame
  · have haccepted := hs.accepted
    cases haccepted

/-- A put whose lock could not be given back fails, and its version is there. -/
theorem failed_put_stored :
    ((lapsedOpen 2).call usual 0 (.put "t" [1] [2])).1 = .error (.txn (.ofRows .switchedOff)) ∧
      ((lapsedOpen 2).call usual 0 (.put "t" [1] [2])).2.services.rows.versionsOf [1] ≠
        (lapsedOpen 2).services.rows.versionsOf [1] :=
  ⟨rfl, by decide +kernel⟩

end State

end Database

end NestedTxn
