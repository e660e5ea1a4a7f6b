import NestedTxn.Proofs.Lifecycle.Steps

/-!
# Alike services

* `Services.Alike s t`: the same readings, records, versions and locks, up to markers. Queues,
  switches, counters and events have no part in what the lifecycle does.
* `Services.Twins s t`: alike, with ledgers that answer. Every operation of the lifecycle answers
  alike on twins and leaves twins: `beginRoot_agrees`, `beginChild_agrees`, `elevate_agrees`,
  `elevateUnder_agrees`, `commit_agrees`, `rollback_agrees`.
-/

namespace NestedTxn

/-- The version without its marker. -/
def RowVersion.unmarked (v : RowVersion) : RowVersion := { v with resolution := none }

namespace Services

/-- The same services, up to markers, queues, switches, counters and events. -/
structure Alike (s t : Services) : Prop where
  clock : s.clock = t.clock
  txns : s.ledger.txns = t.ledger.txns
  versions : s.rows.versions.map RowVersion.unmarked = t.rows.versions.map RowVersion.unmarked
  poisoned : s.rows.poisoned = t.rows.poisoned
  locks : s.rows.locks = t.rows.locks

theorem Alike.refl (s : Services) : s.Alike s := ⟨rfl, rfl, rfl, rfl, rfl⟩

theorem Alike.symm {s t : Services} (h : s.Alike t) : t.Alike s :=
  ⟨h.clock.symm, h.txns.symm, h.versions.symm, h.poisoned.symm, h.locks.symm⟩

theorem Alike.trans {s t u : Services} (h : s.Alike t) (h' : t.Alike u) : s.Alike u :=
  ⟨h.clock.trans h'.clock, h.txns.trans h'.txns, h.versions.trans h'.versions,
    h.poisoned.trans h'.poisoned, h.locks.trans h'.locks⟩

/-- Alike services whose ledgers answer. -/
structure Twins (s t : Services) : Prop extends s.Alike t where
  up : s.ledger.switch.Up
  up' : t.ledger.switch.Up

end Services

/-! ## Calls of the services -/

namespace Ledger

variable {α : Type}

/-- While the ledger answers, the call depends on the records only, and leaves the switch alone. -/
def Plain (call : Act Ledger TxnError α) : Prop :=
  ∀ l l' : Ledger, l.txns = l'.txns → l.switch.on = true → l'.switch.on = true →
    (call.exec l).1 = (call.exec l').1 ∧ (call.exec l).2.txns = (call.exec l').2.txns ∧
      (call.exec l).2.switch = l.switch ∧ (call.exec l').2.switch = l'.switch

theorem fetch_plain (id : TxnId) : Plain (fetch id) := by
  intro l l' ht hl hl'
  rw [exec_fetch, exec_fetch, if_pos hl, if_pos hl', find?_congr ht]
  exact ⟨rfl, ht, rfl, rfl⟩

theorem create_plain (t : Txn) : Plain (create t) := by
  intro l l' ht hl hl'
  rw [exec_create, exec_create, if_pos hl, if_pos hl', find?_congr ht]
  split
  · exact ⟨rfl, ht, rfl, rfl⟩
  · exact ⟨rfl, by simp [insert, ht], rfl, rfl⟩

theorem update_plain (id : TxnId) (change : Txn → Txn) : Plain (update id change) := by
  intro l l' ht hl hl'
  rw [exec_update, exec_update, if_pos hl, if_pos hl', find?_congr ht]
  split
  · exact ⟨rfl, ht, rfl, rfl⟩
  · split
    · exact ⟨rfl, ht, rfl, rfl⟩
    · exact ⟨rfl, by simp [replace, ht], rfl, rfl⟩

end Ledger

namespace Services

variable {α ε : Type}

theorem onLedger_agrees {call : Act Ledger TxnError α} (h : Ledger.Plain call) :
    Act.Agrees Twins (onLedger call) (onLedger call) := by
  intro s t hst
  obtain ⟨he, ht, hs, hs'⟩ := h s.nextLedger t.nextLedger hst.txns hst.up.on_advance
    hst.up'.on_advance
  rw [exec_onLedger, exec_onLedger]
  refine ⟨he, ⟨hst.clock, ht, hst.versions, hst.poisoned, hst.locks⟩, ?_, ?_⟩
  · rw [withLedger_ledger, hs]
    exact hst.up.advance
  · rw [withLedger_ledger, hs']
    exact hst.up'.advance

theorem tick_agrees : Act.Agrees Twins tick tick := by
  intro s t h
  have hc : t.clock = s.clock := h.clock.symm
  have hticked : Twins s.ticked t.ticked :=
    ⟨⟨by rw [ticked, ticked, hc], h.txns, h.versions, h.poisoned, h.locks⟩, h.up, h.up'⟩
  cases hr : s.clock.reading s.clock.taken with
  | none =>
    rw [exec_tick_none hr, exec_tick_none (by rw [hc, hr])]
    exact ⟨rfl, hticked⟩
  | some ts =>
    rw [exec_tick_some hr, exec_tick_some (by rw [hc, hr])]
    exact ⟨rfl, hticked⟩

theorem count_agrees (c : Counter) :
    Act.Agrees Twins (count c : Act Services ε Unit) (count c) := fun _ _ h =>
  ⟨rfl, ⟨h.clock, h.txns, h.versions, h.poisoned, h.locks⟩, h.up, h.up'⟩

theorem report_agrees (e : Event) :
    Act.Agrees Twins (report e : Act Services ε Unit) (report e) := fun _ _ h =>
  ⟨rfl, ⟨h.clock, h.txns, h.versions, h.poisoned, h.locks⟩, h.up, h.up'⟩

end Services

/-! ## Operations -/

namespace Lifecycle

open Services

theorem demandActive_agrees (t : Txn) : Act.Agrees Twins (demandActive t) (demandActive t) := by
  unfold demandActive
  split
  · exact .throw _
  · exact .pure _

theorem recorded_agrees (id : TxnId) : Act.Agrees Twins (recorded id) (recorded id) := by
  refine .bind (onLedger_agrees (Ledger.fetch_plain id)) fun x => ?_
  cases x with
  | none => exact .throw _
  | some t => exact .pure t

theorem beginRoot_agrees (isolation : Isolation) :
    Act.Agrees Twins (beginRoot isolation) (beginRoot isolation) :=
  .bind tick_agrees fun _ => .bind (onLedger_agrees (Ledger.create_plain _)) fun _ =>
    .bind (count_agrees _) fun _ => .bind (report_agrees _) fun _ => .pure _

theorem beginChild_agrees (config : Config) (parent : Txn) (isolation : Option Isolation)
    (additive : Bool) (table : Option Table) :
    Act.Agrees Twins (beginChild config parent isolation additive table)
      (beginChild config parent isolation additive table) := by
  refine .bind (demandActive_agrees parent) fun _ => ?_
  split
  · exact .throw _
  · exact .bind tick_agrees fun _ => .bind (onLedger_agrees (Ledger.create_plain _)) fun _ =>
      .bind (count_agrees _) fun _ => .bind (report_agrees _) fun _ => .pure _

theorem grant_agrees (t : Txn) (table : Table) :
    Act.Agrees Twins (grant t table) (grant t table) := by
  refine .bind (onLedger_agrees (Ledger.update_plain _ _)) fun _ => ?_
  split
  · exact .bind (count_agrees _) fun _ => .bind (report_agrees _) fun _ => .pure _
  · exact .bind (report_agrees _) fun _ => .pure _

theorem uncovered_agrees (table : Table) (budget : Nat) (seen : List TxnId) (id : Option TxnId) :
    Act.Agrees Twins (uncovered table budget seen id) (uncovered table budget seen id) := by
  induction budget generalizing seen id with
  | zero => cases id <;> first | exact .pure _ | exact .throw _
  | succ budget ih =>
    cases id with
    | none => exact .pure _
    | some id =>
      rw [uncovered]
      split
      · exact .throw _
      · refine .bind (recorded_agrees id) fun t => ?_
        split
        · exact .pure _
        · exact .bind (ih _ _) fun _ => .pure _

theorem elevate_agrees (config : Config) (t : Txn) (table : Table) :
    Act.Agrees Twins (elevate config t table) (elevate config t table) := by
  unfold elevate
  split
  · exact .pure _
  · refine .bind (demandActive_agrees t) fun _ => .bind (uncovered_agrees _ _ _ _) fun pending => ?_
    refine .bind ?_ fun _ => grant_agrees t table
    exact .forM (fun _ => .map (grant_agrees _ table) _) _

theorem elevateUnder_agrees (config : Config) (t : Txn) (table : Table) (parent : Option Txn) :
    Act.Agrees Twins (elevateUnder config t table parent) (elevateUnder config t table parent) := by
  unfold elevateUnder
  split
  · exact .pure _
  · split
    · exact .bind (demandActive_agrees t) fun _ => grant_agrees t table
    · exact elevate_agrees config t table

theorem globalTimestamp_agrees (budget : Nat) (seen : List TxnId) (id : Option TxnId) :
    Act.Agrees Twins (globalTimestamp budget seen id) (globalTimestamp budget seen id) := by
  induction budget generalizing seen id with
  | zero => cases id <;> first | exact .pure _ | exact .throw _
  | succ budget ih =>
    cases id with
    | none => exact .pure _
    | some id =>
      rw [globalTimestamp]
      split
      · exact .throw _
      · refine .bind (recorded_agrees id) fun t => ?_
        split
        · exact .pure _
        · split
          · exact .pure _
          · exact ih _ _

theorem commit_agrees (config : Config) (t : Txn) :
    Act.Agrees Twins (commit config t) (commit config t) := by
  rw [commit_eq]
  refine .bind (demandActive_agrees t) fun _ => .bind tick_agrees fun ts => .bind ?_ fun _ =>
    .bind (.map (onLedger_agrees (Ledger.update_plain _ _)) _) fun _ =>
    .bind (count_agrees _) fun _ => .bind (report_agrees _) fun _ => .pure _
  unfold commitGlobal
  split
  · exact .pure _
  · exact globalTimestamp_agrees _ _ _

theorem rollback_agrees (t : Txn) : Act.Agrees Twins (rollback t) (rollback t) := by
  unfold rollback
  cases t.state with
  | rolledBack => exact .pure _
  | committed => exact .throw _
  | active =>
    refine .bind (.attempt (onLedger_agrees (Ledger.update_plain _ _))) fun r => ?_
    split
    · exact .bind (count_agrees _) fun _ => report_agrees _
    · exact .pure _
    · exact .throw _

end Lifecycle

end NestedTxn
