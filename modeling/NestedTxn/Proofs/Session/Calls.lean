import NestedTxn.Proofs.Lifecycle.Agreement
import NestedTxn.Proofs.Session.Orderly

/-!
# What the calls of a session do

* `Session.store`: a write once the connection is elevated; `exec_store` is its one equation, and
  `exec_write` says that a write fails with its connection or comes to it.
* `Ledger.sees`: whether a reader sees a version, from the records alone. `exec_get`, `exec_scan`:
  what a read answers, once the transaction of the connection has begun.
-/

namespace NestedTxn

namespace Services

theorem Reads.alike {s s' : Services} (h : s.Reads s') : s.Alike s' :=
  ⟨h.clock.symm, h.txns.symm, by rw [h.rows], by rw [h.rows], by rw [h.rows]⟩

end Services

namespace Session

open Services

variable {max : Nat} {db : Database} {p : Connection × Services}

theorem exec_onRows {α : Type} {call : Act RowStore RowFault α} {p : Connection × Services}
    {x : Except RowFault α} {r : RowStore} (h : call.exec p.2.nextRows = (x, r)) :
    (onRows call).exec p =
      (x.mapError fun fault => .txn (.ofRows fault), p.1, p.2.withRows r) := by
  rw [onRows, Act.exec_onSnd, Act.exec_wrap, Services.exec_onRows, h]

/-! ## Writes -/

section

variable {r : RowStore} (hup : r.switch.Up) (c : Connection) (s : Services)
include hup

theorem exec_take (key : Key) (writer : TxnId) :
    ∃ switch : Switch, switch.Up ∧
      (onRows (RowStore.take key writer)).exec (c, s.withRows r) =
        (.ok (r.locks.take key writer).1, c,
          s.withRows { r with locks := (r.locks.take key writer).2, switch }) :=
  ⟨_, hup.advance, exec_onRows (RowStore.exec_take hup.on_advance key writer)⟩

theorem exec_release (key : Key) (writer : TxnId) :
    ∃ switch : Switch, switch.Up ∧
      (onRows (RowStore.release key writer)).exec (c, s.withRows r) =
        (.ok (), c, s.withRows { r with locks := r.locks.release key writer, switch }) :=
  ⟨_, hup.advance, exec_onRows (RowStore.exec_release hup.on_advance key writer)⟩

theorem exec_add (v : RowVersion) :
    ∃ switch : Switch, switch.Up ∧
      (onRows (RowStore.add v)).exec (c, s.withRows r) =
        (if r.poisoned then .error (.txn (.ofRows .poisoned)) else .ok (), c,
          s.withRows { r with
            versions := if r.poisoned then r.versions else v :: r.versions, switch }) := by
  refine ⟨_, hup.advance, ?_⟩
  have ha := RowStore.exec_add (r := (s.withRows r).nextRows) hup.on_advance v
  rw [nextRows_poisoned, withRows_rows] at ha
  cases hp : r.poisoned with
  | true =>
    rw [if_pos hp] at ha
    rw [exec_onRows ha]
    simp [nextRows, withRows, hp]
  | false =>
    rw [if_neg (by simp [hp])] at ha
    rw [exec_onRows ha]
    simp [nextRows, withRows, RowStore.push, hp]

end

/-- Write a version of `key` as `writer`, under the lock of the row. -/
def store (key : Key) (value : Option Bytes) (writer : TxnId) :
    Act (Connection × Services) SessionError Unit := do
  if !(← onRows (RowStore.take key writer)) then throw (.rowLocked key)
  let written : Except SessionError Unit ←
    Act.attempt (onRows (RowStore.add { key, writer := some writer, value }))
  let released : Except SessionError Unit ← Act.attempt (onRows (RowStore.release key writer))
  if let .error e := written then throw e
  if let .error e := released then throw e

theorem write_eq (db : Database) (table : Table) (key : Key) (value : Option Bytes) :
    write db table key value = (do
      let leaf ← onConnection (Connection.elevate db.config table)
      store key value leaf.id) := rfl

theorem leaf_ok {p p' : Connection × Services} {t : Txn}
    (h : Connection.leaf.exec p = (.ok t, p')) :
    p' = p ∧ ∃ e rest, p.1.stack = e :: rest ∧ e.txn = t := by
  cases hst : p.1.stack with
  | nil =>
    rw [Connection.exec_leaf_nil hst] at h
    cases h
  | cons e rest =>
    rw [Connection.exec_leaf_cons hst] at h
    cases h
    exact ⟨rfl, e, rest, rfl, rfl⟩

/-- An elevation answers the leaf. -/
theorem elevate_leaf {config : Config} {table : Table} {q : Connection × Services} {leaf : Txn}
    (h : (Connection.elevate config table).exec p = (.ok leaf, q)) :
    ∃ e rest, q.1.stack = e :: rest ∧ e.txn = leaf := by
  rw [Connection.elevate_eq] at h
  obtain ⟨_, _, _, h⟩ := Act.exec_bind_eq_ok h
  obtain ⟨_, _, _, h⟩ := Act.exec_bind_eq_ok h
  obtain ⟨_, _, _, h⟩ := Act.exec_bind_eq_ok h
  obtain ⟨_, _, _, h⟩ := Act.exec_bind_eq_ok h
  obtain ⟨rfl, hleaf⟩ := leaf_ok h
  exact hleaf

/-- A write fails with its connection, or goes on to store a version as the leaf. -/
theorem exec_write (db : Database) (p : Connection × Services) (table : Table) (key : Key)
    (value : Option Bytes) :
    (∃ e, (write db table key value).exec p =
        (.error e, ((Connection.elevate db.config table).exec p).2)) ∨
      ∃ e rest, ((Connection.elevate db.config table).exec p).2.1.stack = e :: rest ∧
        (write db table key value).exec p =
          (store key value e.txn.id).exec ((Connection.elevate db.config table).exec p).2 := by
  rw [write_eq, Act.exec_bind, onConnection, Act.exec_wrap]
  rcases hx : (Connection.elevate db.config table).exec p with ⟨e | leaf, q⟩
  · exact .inl ⟨_, rfl⟩
  · obtain ⟨e, rest, hst, rfl⟩ := elevate_leaf hx
    exact .inr ⟨e, rest, hst, rfl⟩

/-- The rows after a version was stored. -/
def stored (r : RowStore) (key : Key) (value : Option Bytes) (writer : TxnId) : RowStore :=
  let locked := r.locks.take key writer
  if locked.1 then
    { r with
      versions :=
        if r.poisoned then r.versions
        else { key, writer := some writer, value } :: r.versions
      locks := locked.2.release key writer }
  else { r with locks := locked.2 }

/-- At most the one version is new. -/
theorem stored_versions (r : RowStore) (key : Key) (value : Option Bytes) (writer : TxnId) :
    (stored r key value writer).versions = r.versions ∨
      (stored r key value writer).versions =
        { key, writer := some writer, value } :: r.versions := by
  unfold stored
  by_cases hlock : (r.locks.take key writer).1 <;> by_cases hpois : r.poisoned <;>
    simp [hlock, hpois]

@[simp]
theorem stored_poisoned (r : RowStore) (key : Key) (value : Option Bytes) (writer : TxnId) :
    (stored r key value writer).poisoned = r.poisoned := by
  unfold stored
  by_cases hlock : (r.locks.take key writer).1 <;> simp [hlock]

theorem exec_store (hup : p.2.rows.switch.Up) (key : Key) (value : Option Bytes)
    (writer : TxnId) :
    ∃ switch : Switch, switch.Up ∧
      (store key value writer).exec p =
        (if (p.2.rows.locks.take key writer).1 then
            if p.2.rows.poisoned then .error (.txn (.ofRows .poisoned)) else .ok ()
          else .error (.rowLocked key),
          p.1, p.2.withRows { stored p.2.rows key value writer with switch }) := by
  obtain ⟨c, s⟩ := p
  obtain ⟨sw₁, hsw₁, ht⟩ := exec_take hup c s key writer
  cases hl : (s.rows.locks.take key writer).1 with
  | false =>
    refine ⟨sw₁, hsw₁, ?_⟩
    change (store key value writer).exec (c, s.withRows s.rows) = _
    rw [store, Act.exec_bind_ok ht]
    simp [stored, hl]
  | true =>
    obtain ⟨sw₂, hsw₂, ha⟩ := exec_add
      (r := { s.rows with locks := (s.rows.locks.take key writer).2, switch := sw₁ }) hsw₁ c s
      { key, writer := some writer, value }
    obtain ⟨sw₃, hsw₃, hr⟩ := exec_release
      (r := { s.rows with
        versions := if s.rows.poisoned then s.rows.versions
          else { key, writer := some writer, value } :: s.rows.versions
        locks := (s.rows.locks.take key writer).2, switch := sw₂ }) hsw₂ c s key writer
    refine ⟨sw₃, hsw₃, ?_⟩
    change (store key value writer).exec (c, s.withRows s.rows) = _
    rw [store, Act.exec_bind_ok ht]
    simp only [hl, Bool.not_true, Bool.false_eq_true, if_false]
    rw [Act.exec_bind, Act.exec_attempt, ha]
    dsimp only
    rw [Act.exec_bind, Act.exec_attempt, hr]
    cases hp : s.rows.poisoned <;> simp [stored, hl, hp]

end Session

/-! ## Reads -/

/-- Whether `reader` sees a version, from the records alone. -/
def Ledger.sees (l : Ledger) (depth : Nat) (reader : Txn) (v : RowVersion) : Bool :=
  SnapshotFilter.sees
    { reader, ancestors := (l.lineage (depth + 1) reader.id).tail, maxDepth := depth } l v

theorem Ledger.sees_congr {l l' : Ledger} (h : l'.txns = l.txns) (depth : Nat) (reader : Txn) :
    l'.sees depth reader = l.sees depth reader := by
  funext v
  rw [sees, sees, lineage_congr h, SnapshotFilter.sees_congr h]

namespace SnapshotFilter

open Services

variable {max : Nat} {f : SnapshotFilter} {s : Services}

theorem Ready.withRows (h : Ready max (f, s)) (r : RowStore) : Ready max (f, s.withRows r) :=
  ⟨h.sound, h.up, h.remembers, h.deep, h.reader⟩

theorem Browses.sane {p p' : SnapshotFilter × Services} (h : Browses p p') (hs : p.2.Sane max) :
    p'.2.Sane max :=
  hs.reads h.reads

/-- The services after a call of the row store that changed no row. -/
theorem sane_switched (hs : s.Sane max) {switch : Switch} (hup : switch.Up) (poisoned : Bool) :
    (s.withRows { s.rows with switch, poisoned }).Sane max :=
  hs.withRows hup hs.versions

theorem alike_switched (s : Services) (switch : Switch) :
    s.Alike (s.withRows { s.rows with switch }) :=
  ⟨rfl, rfl, rfl, rfl, rfl⟩

/-- A read finds the newest version that the filter sees. -/
theorem exec_read (hp : Ready max (f, s)) (hs : s.Sane max) (key : Key) :
    ∃ q, (read key).exec (f, s) =
        (if s.rows.poisoned then .error (.ofRows .poisoned)
          else .ok (((s.rows.versionsOf key).find? (f.sees s.ledger)).bind (·.value)), q) ∧
      s.Alike q.2 ∧ q.2.Sane max := by
  have hon := hs.rowsUp.on_advance
  have hs' := sane_switched hs hs.rowsUp.advance s.rows.poisoned
  have ha := alike_switched s s.rows.switch.advance
  have hr := RowStore.exec_read (r := s.nextRows) hon key
  rw [read, Act.exec_bind, Act.exec_onSnd, Act.exec_wrap, exec_onRows, hr]
  cases hpois : s.rows.poisoned with
  | true =>
    rw [nextRows_poisoned, if_pos hpois]
    exact ⟨_, rfl, ha, hs'⟩
  | false =>
    rw [nextRows_poisoned, if_neg (by simp [hpois])]
    obtain ⟨q, hq, hb⟩ := exec_firstVisible (hp.withRows s.nextRows)
      (s.rows.versionsOf key) fun v hv => hs.versions v (List.mem_filter.1 hv).1
    refine ⟨q, ?_, ha.trans hb.reads.alike, hb.sane hs'⟩
    rw [withRows_ledger] at hq
    simp [Act.exec_map, Except.map, hq]

/-- Whether a scan crashes: there are rows, and the range starts after its end. -/
def inverted (r : RowStore) (start : Key) (stop : Option Key) : Prop :=
  r.versions ≠ [] ∧ stop.any (· < start) = true

instance (r : RowStore) (start : Key) (stop : Option Key) : Decidable (inverted r start stop) :=
  inferInstanceAs (Decidable (_ ∧ _))

/-- The rows of a range are shown, unless it starts after its end: then the rows are poisoned. -/
theorem exec_scan (hp : Ready max (f, s)) (hs : s.Sane max) (start : Key) (stop : Option Key) :
    ∃ q, (scan start stop).exec (f, s) =
        (if s.rows.poisoned then .error (.ofRows .poisoned)
          else if inverted s.rows start stop then .error (.ofRows .invertedRange)
          else .ok (rowsSeen (f.sees s.ledger) none (s.rows.inRange start stop)), q) ∧
      (s.withRows { s.rows with
        poisoned := s.rows.poisoned || inverted s.rows start stop }).Alike q.2 ∧
      q.2.Sane max := by
  have hon := hs.rowsUp.on_advance
  have hs' := sane_switched hs hs.rowsUp.advance
  have hr : (RowStore.scan start stop).exec s.nextRows =
      if s.rows.poisoned then (.error .poisoned, s.nextRows)
      else if inverted s.rows start stop then
        (.error .invertedRange, { s.nextRows with poisoned := true })
      else (.ok (s.rows.inRange start stop), s.nextRows) :=
    RowStore.exec_scan hon start stop
  rw [scan, Act.exec_bind, Act.exec_onSnd, Act.exec_wrap, exec_onRows, hr]
  cases hpois : s.rows.poisoned with
  | true => exact ⟨_, rfl, ⟨rfl, rfl, rfl, hpois.symm, rfl⟩, hs' _⟩
  | false =>
    by_cases hinv : inverted s.rows start stop
    · simp only [hinv, Bool.false_eq_true, if_false, if_true]
      exact ⟨_, rfl, ⟨rfl, rfl, rfl, rfl, rfl⟩, hs' true⟩
    · obtain ⟨q, hq, hb⟩ := exec_visibleRows (hp.withRows s.nextRows) none
        (s.rows.inRange start stop) fun v hv => by
          obtain ⟨_, _, hv⟩ := List.mem_flatMap.1 hv
          exact hs.versions v (List.mem_filter.1 hv).1
      rw [withRows_ledger] at hq
      simp only [hinv, Bool.false_eq_true, if_false]
      exact ⟨q, hq, .trans (t := s.withRows s.nextRows) ⟨rfl, rfl, rfl, hpois.symm, rfl⟩
        hb.reads.alike, hb.sane (hs' _)⟩

end SnapshotFilter

namespace Session

open Services

variable {max : Nat} {p : Connection × Services}

/-- The chain of the leaf of a seated connection. -/
theorem leaf_chain {c : Connection} {s : Services} (hc : c.Seated s.ledger) {e : Savepoint}
    {rest : List Savepoint} (hst : c.stack = e :: rest) :
    ∃ t k, s.ledger.Chain t.id (t :: k) ∧ e.txn.id = t.id ∧ e.txn.parent = t.parent ∧
      (t :: k).map Txn.bare = (e :: rest).map (·.txn.bare) := by
  have hs := hc.stacked
  rw [hst] at hs
  obtain ⟨t, k, hk, hb, hkb⟩ := hs.chain
  have ho := Txn.origin_of_bare hb.symm
  have hid := Txn.id_of_origin ho
  exact ⟨t, k, hid ▸ hk, hid, Txn.parent_of_origin ho, by simp [hb, hkb]⟩

/-- The leaf of a seated connection may write. -/
theorem leaf_truthful {c : Connection} {s : Services} (hc : c.Seated s.ledger) {e : Savepoint}
    {rest : List Savepoint} (hst : c.stack = e :: rest) (key : Key) (value : Option Bytes) :
    s.ledger.Truthful { key, writer := some e.txn.id, value } := by
  obtain ⟨t, k, hk, hid, _⟩ := leaf_chain hc hst
  exact ⟨e.txn.id, t :: k, rfl, hid ▸ hk, nofun⟩

/-- A filter for the leaf of a seated connection can be made, and is ready. -/
theorem exec_load_leaf {c : Connection} {s : Services} (hs : s.Sane max) (hc : c.Seated s.ledger)
    {e : Savepoint} {rest : List Savepoint} (hst : c.stack = e :: rest) (sink : Option Sink) :
    ∃ f s', (SnapshotFilter.load e.txn sink max).exec s = (.ok f, s') ∧ s.Reads s' ∧
      SnapshotFilter.Ready max (f, s') ∧ f.sees s'.ledger = s.ledger.sees max e.txn := by
  obtain ⟨t, k, hk, hid, hp, hb⟩ := leaf_chain hc hst
  have hlen := hk.length_le hs.sound
  obtain ⟨f, s', hreads, hrem, hf, ⟨_, hl⟩ | ⟨hlt, _⟩⟩ :=
    SnapshotFilter.exec_load sink max hk hid hp hs.ledgerUp
  · have hstack := hc.stacked
    rw [hst] at hstack
    have hready : SnapshotFilter.Ready max (f, s') := by
      refine ⟨hs.sound.of_txns hreads.txns, hreads.up hs.ledgerUp, hrem, by rw [hf], t, ?_, ?_⟩
      · rw [hf]
        exact hid ▸ hk.of_txns hreads.txns
      · rw [hf]
        exact hstack.effectiveState hs.sound hk hb
    refine ⟨f, s', hl, hreads, hready, ?_⟩
    funext v
    rw [SnapshotFilter.sees_congr hreads.txns, hf, Ledger.sees, hid,
      hk.lineage_eq (Nat.succ_le_succ hlen)]
    rfl
  · omega

section

variable (db : Database) {α : Type} {a : Act (SnapshotFilter × Services) TxnError α}
  {q : Connection × Services}

theorem exec_withFilter_error {e : TxnError}
    (h : (Connection.activeTxn db.config).exec p = (.error e, q)) :
    (withFilter db a).exec p = (.error (.txn e), q) := by
  rw [withFilter, onConnection, Act.exec_wrap, Act.exec_bind_error h]
  rfl

theorem exec_withFilter_ok {reader : Txn} {f : SnapshotFilter} {s : Services}
    (h : (Connection.activeTxn db.config).exec p = (.ok reader, q))
    (hl : (SnapshotFilter.load reader db.sink db.config.maxAncestorDepth.toNat).exec q.2 =
      (.ok f, s)) :
    (withFilter db a).exec p =
      ((a.exec (f, s)).1.mapError .txn, q.1, (a.exec (f, s)).2.2) := by
  rw [withFilter, onConnection, Act.exec_wrap, Act.exec_bind_ok h, Act.exec_bind, Act.exec_onSnd,
    hl]
  rfl

variable {reader : Txn} (h : (Connection.activeTxn db.config).exec p = (.ok reader, q))
  (hs : q.2.Sane db.config.maxAncestorDepth.toNat) (hc : q.1.Seated q.2.ledger)
include h hs hc

/-- A get answers the newest version that the leaf sees. -/
theorem exec_get (key : Key) :
    ∃ s, (get db key).exec p =
        (if q.2.rows.poisoned then .error (.txn (.ofRows .poisoned))
          else .ok (((q.2.rows.versionsOf key).find?
            (q.2.ledger.sees db.config.maxAncestorDepth.toNat reader)).bind (·.value)), q.1, s) ∧
      q.2.Alike s ∧ s.Sane db.config.maxAncestorDepth.toNat := by
  obtain ⟨_, q', _, hleaf⟩ := Act.exec_bind_eq_ok h
  obtain ⟨rfl, e, rest, hst, rfl⟩ := leaf_ok hleaf
  obtain ⟨f, s, hl, hr, hready, hsees⟩ := exec_load_leaf hs hc hst db.sink
  obtain ⟨r, hx, ha, hsane⟩ := SnapshotFilter.exec_read hready (hs.reads hr) key
  refine ⟨r.2, ?_, hr.alike.trans ha, hsane⟩
  rw [get, exec_withFilter_ok db h hl, hx, hsees, hr.rows]
  split <;> rfl

/-- A scan answers the rows that the leaf sees. -/
theorem exec_scan (start : Key) (stop : Option Key) :
    ∃ s, (scan db start stop).exec p =
        (if q.2.rows.poisoned then .error (.txn (.ofRows .poisoned))
          else if SnapshotFilter.inverted q.2.rows start stop then
            .error (.txn (.ofRows .invertedRange))
          else .ok (SnapshotFilter.rowsSeen
            (q.2.ledger.sees db.config.maxAncestorDepth.toNat reader) none
            (q.2.rows.inRange start stop)), q.1, s) ∧
      (q.2.withRows { q.2.rows with poisoned :=
        q.2.rows.poisoned || SnapshotFilter.inverted q.2.rows start stop }).Alike s ∧
      s.Sane db.config.maxAncestorDepth.toNat := by
  obtain ⟨_, q', _, hleaf⟩ := Act.exec_bind_eq_ok h
  obtain ⟨rfl, e, rest, hst, rfl⟩ := leaf_ok hleaf
  obtain ⟨f, s, hl, hr, hready, hsees⟩ := exec_load_leaf hs hc hst db.sink
  obtain ⟨r, hx, ha, hsane⟩ := SnapshotFilter.exec_scan hready (hs.reads hr) start stop
  refine ⟨r.2, ?_, .trans ?_ ha, hsane⟩
  · rw [scan, exec_withFilter_ok db h hl, hx, hsees, hr.rows]
    split
    · rfl
    · split <;> rfl
  · rw [hr.rows]
    exact ⟨hr.clock.symm, hr.txns.symm, rfl, rfl, rfl⟩

end

end Session

end NestedTxn
