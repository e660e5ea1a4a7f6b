import NestedTxn.Proofs.Session.Calls

/-!
# What a session does to its connection and what to the rows

* `Session.Call.connects`: the part of a call that concerns the connection. It comes to changes of
  the connection (`connects_changes`).
* `Session.Call.Effect`: what the call does then. It may store versions that its leaf wrote, and
  leaves the records, the clock and the connection as they are, and the services sane
  (`Call.run_effect`).
* `Session.put_ok`: after a put that succeeds, the newest version is the one that was put.
-/

namespace NestedTxn

namespace Session

open Services

variable {max : Nat} {db : Database} {p p' q : Connection × Services}

/-- The part of a call that concerns the connection. -/
def Call.connects (config : Config) : Call → Act (Connection × Services) TxnError Unit
  | begin | get _ | scan _ _ => discard (Connection.activeTxn config)
  | put table _ _ | delete table _ => discard (Connection.elevate config table)
  | savepoint name => discard (Connection.setSavepoint config name)
  | release name => discard (Connection.releaseSavepoint config name)
  | rollbackTo name => discard (Connection.rollbackTo config name)
  | commit => discard (Connection.commit config)
  | abort => discard Connection.abort
  | close => discard Connection.close

/-- The key that a call writes. -/
def Call.target? : Call → Option Key
  | put _ key _ | delete _ key => some key
  | _ => none

/-- A scan goes upwards. -/
def Call.Upright : Call → Prop
  | scan start stop => stop.any (· < start) = false
  | _ => True

/-- What a call does after its part that concerns the connection. -/
structure Call.Effect (max : Nat) (c : Call) (q p' : Connection × Services) : Prop where
  connection : p'.1 = q.1
  sane : p'.2.Sane max
  clock : p'.2.clock = q.2.clock
  txns : p'.2.ledger.txns = q.2.ledger.txns
  /-- What is stored is a version that the leaf wrote. -/
  versions : ∃ new : List RowVersion,
    p'.2.rows.versions.map RowVersion.unmarked =
      new ++ q.2.rows.versions.map RowVersion.unmarked ∧
    ∀ v ∈ new, some v.key = c.target? ∧ ∃ e rest, q.1.stack = e :: rest ∧
      v.writer = some e.txn.id
  poisoned : c.Upright → q.2.rows.poisoned = false → p'.2.rows.poisoned = false

theorem Call.Effect.of_alike {c : Call} (h : p'.1 = q.1) (ha : q.2.Alike p'.2)
    (hs : p'.2.Sane max) : c.Effect max q p' where
  connection := h
  sane := hs
  clock := ha.clock.symm
  txns := ha.txns.symm
  versions := ⟨[], ha.versions.symm, nofun⟩
  poisoned _ hp := ha.poisoned ▸ hp

theorem Call.connects_changes (config : Config) (c : Call) :
    Act.Keeps (Connection.Changes config) (c.connects config) := by
  have hshifts : ∀ {α : Type} {a : Act (Connection × Services) TxnError α},
      Act.Keeps (Connection.Shifts config) a →
      Act.Keeps (Connection.Changes config) (discard a) :=
    fun h p => .inl (h.map _ p)
  cases c with
  | begin | get _ | scan _ _ => exact hshifts (Connection.activeTxn_shifts config)
  | put table _ _ | delete table _ => exact hshifts (Connection.elevate_shifts config table)
  | savepoint name => exact hshifts (Connection.setSavepoint_shifts config name)
  | release name => exact hshifts (Connection.releaseSavepoint_shifts config name)
  | rollbackTo name => exact hshifts (Connection.rollbackTo_shifts config name)
  | commit => exact (Connection.commit_changes config).map _
  | abort => exact hshifts (Connection.abort_shifts config)
  | close => exact hshifts (Connection.close_shifts config)

theorem write_effect (hs : p.2.Sane db.config.maxAncestorDepth.toNat)
    (hc : p.1.Seated p.2.ledger) (c : Call) (table : Table) (key : Key) (value : Option Bytes)
    (hkey : c.target? = some key) :
    c.Effect db.config.maxAncestorDepth.toNat ((Connection.elevate db.config table).exec p).2
      ((write db table key value).exec p).2 := by
  have hm := (Connection.elevate_shifts db.config table p).moves hs.sound hc
  have hsane := hs.moved hc hm
  rcases exec_write db p table key value with ⟨e, hx⟩ | ⟨e, rest, hst, hx⟩
  · rw [hx]
    exact .of_alike rfl (.refl _) hsane
  · obtain ⟨switch, hup, hstore⟩ := exec_store hsane.rowsUp key value e.txn.id
    rw [hx, hstore]
    refine ⟨rfl, hsane.withRows hup fun v hv => ?_, rfl, rfl, ?_,
      fun _ hp => (stored_poisoned ..).trans hp⟩
    · rcases stored_versions _ key value e.txn.id with hold | hnew
      · exact hsane.versions v (hold ▸ hv)
      · rcases List.mem_cons.1 (hnew ▸ hv) with rfl | hv
        · exact leaf_truthful hm.seated hst key value
        · exact hsane.versions v hv
    · rcases stored_versions _ key value e.txn.id with hold | hnew
      · exact ⟨[], congrArg _ hold, nofun⟩
      · refine ⟨[{ key, writer := some e.txn.id, value }], congrArg _ hnew, fun v hv => ?_⟩
        rw [List.mem_singleton.1 hv, hkey]
        exact ⟨rfl, e, rest, hst, rfl⟩

/-- A put that succeeds stored its version, as the leaf of an active connection. -/
theorem put_ok {table : Table} {key : Key} {value : Bytes}
    (hs : p.2.Sane db.config.maxAncestorDepth.toNat) (hc : p.1.Seated p.2.ledger)
    (h : (put db table key value).exec p = (.ok (), p')) :
    ∃ e rest, p'.1.stack = e :: rest ∧ p'.2.rows.poisoned = false ∧
      p'.2.rows.versions =
        { key, writer := some e.txn.id, value := some value } :: p.2.rows.versions := by
  have hm := (Connection.elevate_shifts db.config table p).moves hs.sound hc
  rcases exec_write db p table key (some value) with ⟨e, hx⟩ | ⟨e, rest, hst, hx⟩
  · rw [put, hx] at h
    cases h
  · obtain ⟨switch, _, hstore⟩ := exec_store (hs.moved hc hm).rowsUp key (some value) e.txn.id
    rw [put, hx, hstore] at h
    split at h
    · split at h
      · cases h
      · next hlock hpois =>
        cases h
        refine ⟨e, rest, hst, by simpa using hpois, ?_⟩
        rw [← hm.spares.rows]
        simp [stored, hlock, hpois]
    · cases h

/-- A read goes on with the rows, and stores nothing. -/
theorem withFilter_effect {α : Type} {a : Act (SnapshotFilter × Services) TxnError α} {c : Call}
    (hs : p.2.Sane db.config.maxAncestorDepth.toNat) (hc : p.1.Seated p.2.ledger)
    (h : ∀ reader q, (Connection.activeTxn db.config).exec p = (.ok reader, q) →
      q.2.Sane db.config.maxAncestorDepth.toNat → q.1.Seated q.2.ledger →
      ∃ x s, (withFilter db a).exec p = (x, q.1, s) ∧
        c.Effect db.config.maxAncestorDepth.toNat q (q.1, s)) :
    c.Effect db.config.maxAncestorDepth.toNat ((Connection.activeTxn db.config).exec p).2
      ((withFilter db a).exec p).2 := by
  have hm := (Connection.activeTxn_shifts db.config p).moves hs.sound hc
  have hsane := hs.moved hc hm
  rcases hx : (Connection.activeTxn db.config).exec p with ⟨e | reader, q⟩
  · rw [hx] at hsane
    rw [exec_withFilter_error db hx]
    exact .of_alike rfl (.refl _) hsane
  · rw [hx] at hm hsane
    obtain ⟨x, s, he, heff⟩ := h reader q hx hsane hm.seated
    rw [he]
    exact heff

/-- What a call does after its part that concerns the connection. -/
theorem Call.run_effect (db : Database) (c : Call)
    (hs : p.2.Sane db.config.maxAncestorDepth.toNat) (hc : p.1.Seated p.2.ledger) :
    c.Effect db.config.maxAncestorDepth.toNat ((c.connects db.config).exec p).2
      ((c.run db).exec p).2 := by
  have hsane := hs.moved hc ((c.connects_changes db.config p).moves hs.sound hc)
  have hconn : ∀ {α : Type} (a : Act (Connection × Services) TxnError α) (f : α → Answer),
      ((discard a).exec p).2.2.Sane db.config.maxAncestorDepth.toNat →
      c.Effect db.config.maxAncestorDepth.toNat ((discard a).exec p).2
        ((f <$> onConnection a).exec p).2 := by
    intro α a f ha
    rw [Act.exec_discard] at ha
    rw [Act.exec_discard, Act.exec_map, onConnection, Act.exec_wrap]
    exact .of_alike rfl (.refl _) ha
  cases c with
  | begin => exact hconn (Connection.activeTxn db.config) .txn hsane
  | put table key value =>
    rw [Call.run, Call.connects, Act.exec_discard, Act.exec_map]
    exact write_effect hs hc _ table key (some value) rfl
  | delete table key =>
    rw [Call.run, Call.connects, Act.exec_discard, Act.exec_map]
    exact write_effect hs hc _ table key none rfl
  | get key =>
    rw [Call.run, Call.connects, Act.exec_discard, Act.exec_map]
    refine withFilter_effect hs hc fun reader q hx hsq hcq => ?_
    obtain ⟨s, he, ha, hs'⟩ := exec_get db hx hsq hcq key
    exact ⟨_, s, he, .of_alike rfl ha hs'⟩
  | scan start stop =>
    rw [Call.run, Call.connects, Act.exec_discard, Act.exec_map]
    refine withFilter_effect hs hc fun reader q hx hsq hcq => ?_
    obtain ⟨s, he, ha, hs'⟩ := exec_scan db hx hsq hcq start stop
    refine ⟨_, s, he, rfl, hs', ha.clock.symm, ha.txns.symm,
      ⟨[], ha.versions.symm, List.forall_mem_nil _⟩, ?_⟩
    intro hup hp
    rw [← ha.poisoned]
    simp [hp, SnapshotFilter.inverted, show stop.any (· < start) = false from hup]
  | savepoint name => exact hconn (Connection.setSavepoint db.config name) .depth hsane
  | release name => exact hconn (Connection.releaseSavepoint db.config name) .depth hsane
  | rollbackTo name => exact hconn (Connection.rollbackTo db.config name) .depth hsane
  | commit => exact hconn (Connection.commit db.config) .timestamp hsane
  | abort => exact hconn Connection.abort (fun _ => .done) hsane
  | close => exact hconn Connection.close (fun _ => .done) hsane

end Session

end NestedTxn
