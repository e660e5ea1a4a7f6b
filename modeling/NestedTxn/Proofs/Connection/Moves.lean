import NestedTxn.Proofs.Connection.Perched

/-!
# What the calls of a connection do to the ledger

Every call of a seated connection moves it (`Connection.Moves`), whether or not it succeeds and
whatever the clock and the ledger answer. That follows from the changes that it consists of:
`Shift.moves` for each of them, `Shifts.moves` and `Changes.moves` for a call.

An entry leaves the stack together with the change of its record, so between the two the connection
is not seated: `moved_finish` covers both at once, as `moved_push` does for a new record that comes
onto the stack.
-/

namespace NestedTxn

namespace Connection

open Ledger Services

variable {config : Config} {max : Nat} {c c' : Connection} {s s' : Services}
  {p p' : Connection × Services}

/-! ## Single steps -/

theorem moves_of_regrants (h : s.Regrants s') : Moves max (c, s) (c, s') := fun hs hc =>
  ⟨h.toSpares, h.sound hs, ⟨hc.idle, hc.stacked.keep fun _ _ _ ht => h.find? ht⟩, h.grows,
    fun _ _ _ ht => h.find? ht, fun _ hid => .inl hid⟩

/-- Time may go by. -/
theorem moves_of_records (h : s.Records s.ledger s') : Moves max (c, s) (c, s') := by
  have hk : ∀ id t, s.ledger.find? id = some t →
      ∃ u, s'.ledger.find? id = some u ∧ u.bare = t.bare :=
    fun id t ht => ⟨t, by rw [h.find?, ht], rfl⟩
  exact fun hs hc => ⟨h.toSpares, hs.of_txns h.txns, ⟨hc.idle, hc.stacked.keep fun _ _ => hk _⟩,
    .of_txns h.txns, fun id _ => hk id, fun _ hid => .inl hid⟩

/-- The stack stays. -/
theorem moves_of_stack (c' : Connection) (hst : c'.stack = c.stack)
    (hp : c'.phase ≠ .active → c.stack = []) :
    Moves max (c, s) (c', s) := fun hs hc =>
  ⟨.refl s, hs, ⟨fun h => hst ▸ hp h, hst ▸ hc.stacked⟩, .refl _, fun _ _ t ht => ⟨t, ht, rfl⟩,
    fun id hid => .inl (by rwa [ids, hst] at hid)⟩

/-- A new active record comes onto the stack, as a child of the top entry. -/
theorem moved_push (name : String) {t : Txn} (hs : s.ledger.Sound max) (hc : c.Seated s.ledger)
    (hf : s.ledger.find? t.id = none) (hpl : s.ledger.Placed max t) (ha : t.state = .active)
    (hp : t.parent = c.stack.head?.map (·.txn.id)) (hr : s.Records (s.ledger.insert t) s')
    (hst : c'.stack = ⟨name, t⟩ :: c.stack) (hph : c'.phase = .active) :
    Moved max (c, s) (c', s') := by
  have hk : ∀ id u, s.ledger.find? id = some u →
      ∃ v, s'.ledger.find? id = some v ∧ v.bare = u.bare := by
    intro id u hu
    have hne : t.id ≠ id := fun h => by
      rw [← h, hf] at hu
      cases hu
    exact ⟨u, by rw [hr.find?, find?_insert, if_neg hne, hu], rfl⟩
  refine ⟨hr.toSpares, (hs.insert hf hpl).of_txns hr.txns, ⟨fun h => absurd hph h, ?_⟩,
    (grows_insert hf).trans (.of_txns hr.txns), fun id _ => hk id, fun id hid => ?_⟩
  · rw [hst]
    refine .cons (t := t) ?_ rfl ha hp (hc.stacked.keep fun _ _ => hk _)
    rw [hr.find?, find?_insert, if_pos rfl]
  · rw [ids, hst, List.map_cons, List.mem_cons] at hid
    rcases hid with rfl | hid
    · exact .inr hf
    · exact .inl hid

/-- The record of an entry is finished, and the entry leaves the stack with all above it. -/
theorem moved_finish (pre : List Savepoint) {e : Savepoint} {u : Txn} (o : Outcome)
    (hs : s.ledger.Sound max) (hc : c.Seated s.ledger) (hst : c.stack = pre ++ c'.stack)
    (he : e ∈ pre) (hu : s.ledger.find? e.txn.id = some u) (ha : u.state = .active)
    (hr : s.Records (s.ledger.replace (u.finish o)) s')
    (hph : c'.phase ≠ .active → c'.stack = []) : Moved max (c, s) (c', s') := by
  have huid := id_of_find? hu
  have hnd := hc.stacked.nodup
  rw [hst, List.map_append] at hnd
  have hk : ∀ id, id ≠ e.txn.id → ∀ t, s.ledger.find? id = some t →
      ∃ v, s'.ledger.find? id = some v ∧ v.bare = t.bare := by
    intro id hne t ht
    exact ⟨t, by rw [hr.find?, find?_replace, Txn.finish_id, huid, if_neg hne.symm, ht], rfl⟩
  have hu' : s.ledger.find? u.id = some u := by rw [huid, hu]
  refine ⟨hr.toSpares, (hs.finish hu' ha o).of_txns hr.txns, ⟨hph, ?_⟩,
    (grows_replace hu' (.finish ha o)).trans (.of_txns hr.txns), fun id hid => ?_, fun id hid => ?_⟩
  · have hst' : s.ledger.Stacked (pre ++ c'.stack) := hst ▸ hc.stacked
    refine hst'.of_append.keep fun d hd => hk _ fun h => ?_
    exact (List.nodup_append.1 hnd).2.2 _ (List.mem_map_of_mem he) _ (List.mem_map_of_mem hd)
      h.symm
  · refine hk id fun h => hid ?_
    rw [ids, hst, List.map_append, h]
    exact List.mem_append_left _ (List.mem_map_of_mem he)
  · refine .inl ?_
    rw [ids, hst, List.map_append]
    exact List.mem_append_right _ hid

/-! ## Calls -/

/-- Whatever a seated connection does, it moves. -/
theorem Shift.moves (h : Shift config p p') : Moves config.maxAncestorDepth.toNat p p' := by
  intro hs hc
  cases h with
  | @stay c c' s s' hst hph hr =>
    have hstack : Moves config.maxAncestorDepth.toNat (c, s) (c', s) :=
      moves_of_stack c' hst fun hn => (hph hn).elim hc.idle id
    exact Moves.trans _ _ _ _ hstack (moves_of_records hr) hs hc
  | @regrant c s s' st hr hk =>
    have hb := bare_of_kept (fun _ => hc.stacked.find?) hr hk
    have hm := moves_of_regrants hr hs hc
    refine ⟨hm.spares, hm.sound, ⟨fun hn => ?_, hm.seated.stacked.of_bare hb⟩, hm.grows,
      hm.others, fun id hid => .inl (ids_of_bare hb ▸ hid)⟩
    exact List.map_eq_nil_iff.1 (by rw [hb, hc.idle hn]; rfl)
  | @root c s s' ts hph _ hf hr _ =>
    have hst : c.stack = [] := hc.idle (by rw [hph]; nofun)
    exact moved_push c.name hs hc hf (placed_root ts _) rfl (by rw [hst]; rfl) hr rfl rfl
  | @child c s s' e rest ts d name hst _ hd _ hf hr _ =>
    have hph : c.phase = .active := by
      by_contra hn
      rw [hc.idle hn] at hst
      cases hst
    obtain ⟨t, ht, hb⟩ := hc.stacked.find? (show e ∈ c.stack by simp [hst])
    exact moved_push name hs hc hf (placed_child ts _ _ _ ht (Txn.origin_of_bare hb) hd) rfl
      (by rw [hst]; rfl) hr rfl hph
  | @drop c s s' e rest u o hst hu ha _ hr =>
    refine moved_finish [e] o hs hc hst (by simp) hu ha hr fun hn => ?_
    rw [hc.idle hn] at hst
    cases hst
  | skip hst hdone _ => exact (hc.perched.not_finished hst hdone).elim

theorem Shifts.moves (h : Shifts config p p') : Moves config.maxAncestorDepth.toNat p p' := by
  induction h with
  | refl => exact .refl _ _
  | tail _ step ih => exact .trans _ _ _ _ ih step.moves

theorem Cleared.moves {e : Savepoint} {u : Txn} {ts : Timestamp} {globalTs : Option Timestamp}
    (h : Cleared p p' e u ts globalTs) : Moves max p p' := by
  intro hs hc
  have hst : p'.1.stack = [] := by rw [h.connection]
  exact moved_finish p.1.stack _ hs hc (by rw [hst, List.append_nil])
    (List.mem_of_getLast? h.bottom) h.found h.active h.records fun _ => hst

theorem Changes.moves (h : Changes config p p') : Moves config.maxAncestorDepth.toNat p p' := by
  rcases h with h | ⟨e, u, ts, globalTs, h⟩
  · exact h.moves
  · exact h.moves

end Connection

end NestedTxn
