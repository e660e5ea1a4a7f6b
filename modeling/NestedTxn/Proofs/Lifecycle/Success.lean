import NestedTxn.Proofs.Lifecycle.Elevation
import NestedTxn.Proofs.Visibility.Walk

/-!
# When the operations of the lifecycle succeed

While the ledger answers, the clock has a reading and ids are new, an operation on active records
does what it is for: `beginRoot_ok`, `beginChild_ok`, `commit_ok`, `rollback_ok`, `elevateUnder_ok`.
-/

namespace NestedTxn

namespace Services

variable {s : Services}

theorem exec_create_up (hup : s.ledger.switch.Up) {t : Txn} (hf : s.ledger.find? t.id = none) :
    (onLedger (Ledger.create t)).exec s = (.ok (), s.withLedger (s.nextLedger.insert t)) := by
  have hon : s.nextLedger.switch.on = true := hup.on_advance
  rw [exec_onLedger, Ledger.exec_create, if_pos hon, nextLedger_find?, hf]
  rfl

theorem exec_update_up (hup : s.ledger.switch.Up) {id : TxnId} {u : Txn}
    (hu : s.ledger.find? id = some u) (ha : u.state = .active) (change : Txn → Txn) :
    (onLedger (Ledger.update id change)).exec s =
      (.ok (change u), s.withLedger (s.nextLedger.replace (change u))) := by
  have hon : s.nextLedger.switch.on = true := hup.on_advance
  rw [exec_onLedger, Ledger.exec_update, if_pos hon, nextLedger_find?, hu]
  simp [ha, TxnState.isTerminal]

end Services

namespace Lifecycle

open Services

variable {s : Services} {t u : Txn} {ts : Timestamp}

theorem demandActive_ok (ha : t.state = .active) (s : Services) :
    (demandActive t).exec s = (.ok (), s) := by
  rw [exec_demandActive, ha]
  rfl

section

variable (hup : s.ledger.switch.Up) (hr : s.clock.reading s.clock.taken = some ts)
include hup hr

theorem beginRoot_ok (hf : s.ledger.find? ts = none) (isolation : Isolation) :
    ∃ s', (beginRoot isolation).exec s = (.ok (.root ts ts isolation), s') ∧
      s.Records (s.ledger.insert (.root ts ts isolation)) s' ∧ s'.clock = s.ticked.clock := by
  have hc := exec_create_up (s := s.ticked) hup (t := .root ts ts isolation) hf
  have hs := ((records_insert s.ticked (.root ts ts isolation)).counted .begun).reported
    (.begunRoot (.root ts ts isolation))
  refine ⟨_, ?_, hs.after_tick, rfl⟩
  rw [beginRoot, Act.exec_bind_ok (exec_tick_some hr), Act.exec_bind_ok hc]
  rfl

/-- A child of a parent that is active and not too deep. -/
theorem beginChild_ok (hf : s.ledger.find? ts = none) (config : Config) {parent : Txn}
    (ha : parent.state = .active) (hd : parent.depth < config.maxAncestorDepth) :
    ∃ s', (beginChild config parent).exec s =
        (.ok (.child ts ts parent parent.isolation false none), s') ∧
      s.Records (s.ledger.insert (.child ts ts parent parent.isolation false none)) s' ∧
      s'.clock = s.ticked.clock := by
  let t := Txn.child ts ts parent parent.isolation false none
  have hc := exec_create_up (s := s.ticked) hup (t := t) hf
  have hs := ((records_insert s.ticked t).counted .begun).reported (.begunChild t)
  refine ⟨_, ?_, hs.after_tick, rfl⟩
  rw [beginChild, Act.exec_bind_ok (demandActive_ok ha s), if_neg (UInt64.not_le.2 hd),
    Act.exec_bind_ok (exec_tick_some hr)]
  dsimp only [Option.filter_none, Option.map_none, Option.getD_none]
  rw [Act.exec_bind_ok hc]
  rfl

end

/-- A parent that nests too deep has no child. -/
theorem beginChild_refused (config : Config) {parent : Txn} (ha : parent.state = .active)
    (hd : config.maxAncestorDepth ≤ parent.depth) (s : Services) :
    (beginChild config parent).exec s =
      (.error (.nestingTooDeep parent.id config.maxAncestorDepth), s) := by
  rw [beginChild, Act.exec_bind_ok (demandActive_ok ha s), if_pos hd]
  rfl

theorem grant_ok (hup : s.ledger.switch.Up) (hu : s.ledger.find? t.id = some u)
    (hua : u.state = .active) (table : Table) : ∃ t' s', (grant t table).exec s = (.ok t', s') := by
  have hx : (onLedger (Ledger.grant t.id table)).exec s = _ :=
    exec_update_up hup hu hua (·.grant table)
  rcases grant_cases t table s with ⟨e, s', he, _⟩ | ⟨_, s', _, _, he, _⟩
  · rw [grant, Act.exec_bind_ok hx] at he
    cases hw : t.allowsWrites <;> simp [Act.exec_bind, Act.exec_map, Except.map, hw] at he
  · exact ⟨_, s', he⟩

/-- A root, or a transaction whose parent was just elevated, is elevated by at most one grant. -/
theorem elevateUnder_eq (config : Config) {t : Txn} {table : Table} {parent : Option Txn}
    (hp : t.parent = none ∨ parent.any fun p => t.parent = some p.id && p.writableFor table) :
    elevateUnder config t table parent =
      if t.writableFor table then pure t else demandActive t >>= fun _ => grant t table := by
  unfold elevateUnder
  split
  · rfl
  · split
    · rfl
    · next hw hn =>
      have hroot : t.parent = none := hp.resolve_right hn
      have huncovered : uncovered table config.maxAncestorDepth.toNat [] t.parent = pure [] := by
        rw [hroot]
        cases config.maxAncestorDepth.toNat <;> rfl
      rw [elevate, if_neg hw, huncovered]
      rfl

section

variable (hup : s.ledger.switch.Up) (ha : t.state = .active)
  (hu : s.ledger.find? t.id = some u) (hua : u.state = .active)
include hup ha hu hua

theorem rollback_ok : ∃ s', (rollback t).exec s = (.ok (), s') ∧
    s.Records (s.ledger.replace (u.finish .rolledBack)) s' ∧ s'.clock = s.clock := by
  have hx := exec_update_up hup hu hua (·.finish .rolledBack)
  have hs := ((records_replace s (u.finish .rolledBack)).counted .rolledBack).reported .rolledBack
  refine ⟨_, ?_, hs, rfl⟩
  simp [rollback, ha, Ledger.finish, Act.exec_bind, hx]

/-- The parent of a transaction, if there is one, is active: then nothing is known yet about the
commit timestamp of the outermost ancestor. -/
theorem commit_ok (hr : s.clock.reading s.clock.taken = some ts) {config : Config}
    (hmax : 0 < config.maxAncestorDepth.toNat)
    (hp : ∀ p, t.parent = some p → ∃ v, s.ledger.find? p = some v ∧ v.state = .active) :
    ∃ globalTs s', (commit config t).exec s = (.ok ts, s') ∧
      s.Records (s.ledger.replace (u.finish (.committed ts globalTs))) s' ∧
      s'.clock = s.ticked.clock := by
  obtain ⟨globalTs, s₁, hg, hl⟩ : ∃ globalTs s₁,
      (commitGlobal config t ts).exec s.ticked = (.ok globalTs, s₁) ∧ s.ticked.Looks s₁ := by
    unfold commitGlobal
    split
    · exact ⟨_, _, rfl, .refl _⟩
    · obtain ⟨n, hn⟩ := Nat.exists_eq_succ_of_ne_zero (Nat.ne_of_gt hmax)
      rw [hn]
      cases hpar : t.parent with
      | none => exact ⟨_, _, rfl, .refl _⟩
      | some p =>
        obtain ⟨v, hv, hva⟩ := hp p hpar
        have hf := exec_fetch_up (s := s.ticked) hup p
        rw [show s.ticked.ledger.find? p = some v from hv] at hf
        refine ⟨none, _, ?_, looks_called s.ticked⟩
        simp [globalTimestamp, recorded, Act.exec_bind, hf, hva]
  have hu₁ : s₁.ledger.find? t.id = some u := (hl.find? t.id).trans hu
  have hx := exec_update_up (hl.up hup) hu₁ hua (·.finish (.committed ts globalTs))
  have hs := (hl.toRecords.after_tick.replace
    (records_replace s₁ (u.finish (.committed ts globalTs)))).counted .committed
  refine ⟨globalTs, _, ?_, hs.reported (.committed ts globalTs), hl.clock⟩
  simp [commit_eq, Ledger.finish, Act.exec_bind, Act.exec_map, Act.exec_discard, Except.map,
    demandActive_ok ha, exec_tick_some hr, hg, hx]

/-- A root, or a transaction whose parent was just elevated, can be elevated. -/
theorem elevateUnder_ok (config : Config) (table : Table) {parent : Option Txn}
    (hp : t.parent = none ∨ parent.any (fun p => t.parent = some p.id && p.writableFor table)) :
    ∃ t' s', (elevateUnder config t table parent).exec s = (.ok t', s') := by
  rw [elevateUnder_eq config hp]
  split
  · exact ⟨_, _, rfl⟩
  · rw [Act.exec_bind_ok (demandActive_ok ha s)]
    exact grant_ok hup hu hua table

end

end Lifecycle

end NestedTxn
