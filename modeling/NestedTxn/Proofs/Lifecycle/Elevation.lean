import NestedTxn.Proofs.Lifecycle.Steps

/-!
# Elevation changes destinations only

* `Services.Regrants s s'`: records of `s` that are active may cover more tables in `s'`; nothing
  else changed that matters. A sound ledger stays sound (`Regrants.sound`).
* `Lifecycle.grant`, `elevate`, `elevateUnder` do no more than that, also where they fail
  (`elevate_regrants`, `elevateUnder_regrants`).
* `Lifecycle.Elevated`: their answers cover the table and are records (`elevate_elevated`,
  `elevateUnder_elevated`).
-/

namespace NestedTxn

namespace Services

/-- From `s` to `s'` destinations of active records were widened. -/
structure Regrants (s s' : Services) : Prop extends s.Spares s' where
  clock : s'.clock = s.clock
  /-- The records are the same up to their destinations. -/
  bare : ∀ id, (s'.ledger.find? id).map Txn.bare = (s.ledger.find? id).map Txn.bare
  grows : s.ledger.Grows s'.ledger

theorem Regrants.refl (s : Services) : s.Regrants s := ⟨.refl s, rfl, fun _ => rfl, .refl _⟩

theorem Regrants.trans (s s' s'' : Services) (h : s.Regrants s') (h' : s'.Regrants s'') :
    s.Regrants s'' :=
  ⟨h.toSpares.trans h'.toSpares, h'.clock.trans h.clock,
    fun id => (h'.bare id).trans (h.bare id), h.grows.trans h'.grows⟩

theorem Looks.regrants {s s' : Services} (h : s.Looks s') : s.Regrants s' :=
  ⟨h.toSpares, h.clock, fun id => by rw [h.find? id], .of_txns h.txns⟩

/-- A record of `s` is still there, up to its destination. -/
theorem Regrants.find? {s s' : Services} (h : s.Regrants s') {id : TxnId} {t : Txn}
    (ht : s.ledger.find? id = some t) : ∃ u, s'.ledger.find? id = some u ∧ u.bare = t.bare := by
  have hb := h.bare id
  rw [ht] at hb
  exact Option.map_eq_some_iff.1 hb

/-- A record of `s'` was there before, up to its destination. -/
theorem Regrants.find?_before {s s' : Services} (h : s.Regrants s') {id : TxnId} {u : Txn}
    (hu : s'.ledger.find? id = some u) : ∃ t, s.ledger.find? id = some t ∧ t.bare = u.bare := by
  have hb := h.bare id
  rw [hu] at hb
  exact Option.map_eq_some_iff.1 hb.symm

theorem Regrants.sound {s s' : Services} {max : Nat} (h : s.Regrants s')
    (hs : s.ledger.Sound max) : s'.ledger.Sound max := by
  intro id u hu
  obtain ⟨t, ht, hb⟩ := h.find?_before hu
  refine (hs id t ht).grows h.grows (Txn.origin_of_bare hb.symm) ?_
  change u.bare.state = .committed ↔ u.bare.commitTimestamp.isSome
  rw [← hb]
  exact (hs id t ht).stamped

end Services

namespace Lifecycle

open Services

theorem grant_regrants (t : Txn) (table : Table) : Act.Keeps Regrants (grant t table) := by
  intro s
  rcases grant_cases t table s with ⟨e, s', he, hs⟩ | ⟨u, s', hu, ha, he, hs, hc⟩
  · rw [he]
    exact hs.regrants
  · rw [he]
    rw [← Ledger.id_of_find? hu] at hu
    refine ⟨hs.toSpares, hc, fun id => ?_, ?_⟩
    · rw [hs.find? id, Ledger.find?_replace, Txn.grant_id]
      split
      · next h =>
        rw [← h, hu]
        rfl
      · rfl
    · exact (Ledger.grows_replace hu (.grant ha table)).trans (.of_txns hs.txns)

theorem grants_regrants (table : Table) (l : List Txn) :
    Act.Keeps Regrants (l.forM fun a => discard (grant a table)) :=
  .forM Regrants.refl Regrants.trans (fun a => (grant_regrants a table).map _) l

theorem elevate_regrants (config : Config) (t : Txn) (table : Table) :
    Act.Keeps Regrants (elevate config t table) := by
  rw [elevate]
  split
  · exact Regrants.refl
  · refine .bind Regrants.trans (fun s => ?_) fun _ =>
      .bind Regrants.trans (fun s => (uncovered_looks _ _ _ _ s).regrants) fun pending =>
      .bind Regrants.trans (.forM Regrants.refl Regrants.trans (fun a => ?_) _) fun _ =>
      grant_regrants t table
    · rw [exec_demandActive]
      split <;> exact .refl s
    · exact (grant_regrants a table).map _

theorem elevateUnder_regrants (config : Config) (t : Txn) (table : Table) (parent : Option Txn) :
    Act.Keeps Regrants (elevateUnder config t table parent) := by
  rw [elevateUnder]
  split
  · exact Regrants.refl
  · split
    · refine .bind Regrants.trans (fun s => ?_) fun _ => grant_regrants t table
      rw [exec_demandActive]
      split <;> exact .refl s
    · exact elevate_regrants config t table

/-! ## Answers -/

/-- `t'` is `t` made writable for `table`. -/
structure Elevated (l : Ledger) (t : Txn) (table : Table) (t' : Txn) : Prop where
  covers : t'.writableFor table = true
  record : t' = t ∨ l.find? t.id = some t'

theorem Elevated.id {l : Ledger} {t t' : Txn} {table : Table} (h : Elevated l t table t') :
    t'.id = t.id :=
  h.record.elim (fun h => by rw [h]) Ledger.id_of_find?

/-- The answer is what was given, or a record. -/
theorem Elevated.found {l : Ledger} {t t' : Txn} {table : Table} (h : Elevated l t table t') :
    t' = t ∨ l.find? t'.id = some t' := by
  rw [h.id]
  exact h.record

theorem grant_elevated {t t' : Txn} {table : Table} {s s' : Services}
    (h : (grant t table).exec s = (.ok t', s')) : Elevated s'.ledger t table t' := by
  rcases grant_cases t table s with ⟨e, s₁, he, _⟩ | ⟨u, s₁, hu, _, he, hs, _⟩
  · rw [he] at h
    cases h
  · rw [he] at h
    cases h
    refine ⟨Txn.writableFor_grant.2 (.inl rfl), .inr ?_⟩
    rw [hs.find? t.id, Ledger.find?_replace, Txn.grant_id, Ledger.id_of_find? hu, if_pos rfl, hu]
    rfl

theorem elevate_elevated {config : Config} {t t' : Txn} {table : Table} {s s' : Services}
    (h : (elevate config t table).exec s = (.ok t', s')) : Elevated s'.ledger t table t' := by
  rw [elevate] at h
  split at h
  · next hw =>
    cases h
    exact ⟨hw, .inl rfl⟩
  · obtain ⟨_, s₁, _, h⟩ := Act.exec_bind_eq_ok h
    obtain ⟨pending, s₂, _, h⟩ := Act.exec_bind_eq_ok h
    obtain ⟨_, s₃, _, h⟩ := Act.exec_bind_eq_ok h
    exact grant_elevated h

theorem elevateUnder_elevated {config : Config} {t t' : Txn} {table : Table} {parent : Option Txn}
    {s s' : Services} (h : (elevateUnder config t table parent).exec s = (.ok t', s')) :
    Elevated s'.ledger t table t' := by
  rw [elevateUnder] at h
  split at h
  · next hw =>
    cases h
    exact ⟨hw, .inl rfl⟩
  · split at h
    · obtain ⟨_, s₁, _, h⟩ := Act.exec_bind_eq_ok h
      exact grant_elevated h
    · exact elevate_elevated h

end Lifecycle

end NestedTxn
