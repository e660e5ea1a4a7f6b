import NestedTxn.Proofs.Lifecycle.Runs

/-!
# Where timestamps come from

* `Clock.Rises c m n`: of the readings from number `m` up to `n`, later ones are larger.
* `Services.Elapsed s s'`: from `s` to `s'` time went by. `Services.Drawn s s' ts`: `ts` was read
  from the clock on the way.
* `Services.Dated s s'`: the ledger grew, and a begin timestamp or commit timestamp that is new in
  `s'` was drawn on the way. Every operation of the lifecycle does no more than that, and so does a
  run (`Reach.dated`).
* `Drawn.lt`: what was drawn later is larger. `Dated.committed_before`: so a transaction that
  becomes effectively committed does so at a timestamp larger than all before.
-/

namespace NestedTxn

/-- Of the readings from number `m` up to `n`, later ones are larger. -/
def Clock.Rises (c : Clock) (m n : Nat) : Prop :=
  ∀ i j a b, m ≤ i → i < j → j < n → c.reading i = some a → c.reading j = some b → a < b

/-- The standard clock rises as long as it does not overflow. -/
theorem Clock.rises_standard {n : Nat} (hn : n < UInt64.size) : Clock.standard.Rises 0 n := by
  intro i j a b _ hij hj ha hb
  have ha' : (1 + i) % UInt64.size = a := Option.some.inj ha
  have hb' : (1 + j) % UInt64.size = b := Option.some.inj hb
  rw [Nat.mod_eq_of_lt (by omega)] at ha' hb'
  rw [← ha', ← hb']
  exact Nat.add_lt_add_left hij 1

namespace Services

/-- From `s` to `s'` time went by. -/
structure Elapsed (s s' : Services) : Prop where
  reading : s'.clock.reading = s.clock.reading
  taken : s.clock.taken ≤ s'.clock.taken

/-- `ts` was read from the clock on the way from `s` to `s'`. -/
def Drawn (s s' : Services) (ts : Timestamp) : Prop :=
  ∃ i, s.clock.taken ≤ i ∧ i < s'.clock.taken ∧ s.clock.reading i = some ts

/-- The ledger grew, and what is newly dated in `s'` was dated on the way from `s`. -/
structure Dated (s s' : Services) : Prop extends s.Elapsed s' where
  grows : s.ledger.Grows s'.ledger
  /-- A new record begins with a timestamp that was drawn on the way. -/
  begun : ∀ id t, s'.ledger.find? id = some t → s.ledger.find? id = none →
    s.Drawn s' t.beginTimestamp
  /-- A new commit timestamp was drawn on the way. -/
  committed : ∀ id t ts, s'.ledger.find? id = some t → t.commitTimestamp = some ts →
    s.Drawn s' ts ∨ ∃ u, s.ledger.find? id = some u ∧ u.commitTimestamp = some ts

variable {s s' s'' : Services} {ts : Timestamp}

theorem Spares.elapsed (h : s.Spares s') : s.Elapsed s' := ⟨h.reading, h.taken⟩

theorem Elapsed.trans (h : s.Elapsed s') (h' : s'.Elapsed s'') : s.Elapsed s'' :=
  ⟨h'.reading.trans h.reading, Nat.le_trans h.taken h'.taken⟩

theorem Drawn.widen_right (h : s.Drawn s' ts) (h' : s'.Elapsed s'') : s.Drawn s'' ts := by
  obtain ⟨i, hm, hn, hi⟩ := h
  exact ⟨i, hm, Nat.lt_of_lt_of_le hn h'.taken, hi⟩

theorem Drawn.widen_left (h : s'.Drawn s'' ts) (h' : s.Elapsed s') : s.Drawn s'' ts := by
  obtain ⟨i, hm, hn, hi⟩ := h
  exact ⟨i, Nat.le_trans h'.taken hm, hn, h'.reading ▸ hi⟩

/-- What was drawn later is larger. -/
theorem Drawn.lt {a b : Timestamp} (ha : s.Drawn s' a) (hb : s'.Drawn s'' b) (h : s.Elapsed s')
    (hc : s.clock.Rises s.clock.taken s''.clock.taken) : a < b := by
  obtain ⟨i, hm, hn, hi⟩ := ha
  obtain ⟨j, hm', hn', hj⟩ := hb
  exact hc i j a b hm (Nat.lt_of_lt_of_le hn hm') hn' hi (h.reading ▸ hj)

theorem Regrants.dated (h : s.Regrants s') : s.Dated s' where
  toElapsed := h.toSpares.elapsed
  grows := h.grows
  begun id t ht hn := by
    obtain ⟨u, hu, _⟩ := h.find?_before ht
    rw [hn] at hu
    cases hu
  committed id t ts ht hts := by
    obtain ⟨u, hu, hb⟩ := h.find?_before ht
    refine .inr ⟨u, hu, ?_⟩
    change u.bare.commitTimestamp = some ts
    rw [hb]
    exact hts

theorem Looks.dated (h : s.Looks s') : s.Dated s' := h.regrants.dated

/-- Time may go by. -/
theorem Elapsed.dated (h : s.Elapsed s') (ht : s'.ledger.txns = s.ledger.txns) : s.Dated s' where
  toElapsed := h
  grows := .of_txns ht
  begun id t hf hn := by
    rw [Ledger.find?_congr ht, hn] at hf
    cases hf
  committed id t ts hf hts := .inr ⟨t, Ledger.find?_congr ht id ▸ hf, hts⟩

theorem Records.dated (h : s.Records s.ledger s') : s.Dated s' :=
  h.toSpares.elapsed.dated h.txns

theorem Dated.refl (s : Services) : s.Dated s := (Looks.refl s).dated

theorem Dated.trans (s s' s'' : Services) (h : s.Dated s') (h' : s'.Dated s'') : s.Dated s'' where
  toElapsed := h.toElapsed.trans h'.toElapsed
  grows := h.grows.trans h'.grows
  begun id t ht hn := by
    cases hf : s'.ledger.find? id with
    | none => exact (h'.begun id t ht hf).widen_left h.toElapsed
    | some u =>
      obtain ⟨v, hv, huv⟩ := h'.grows id u hf
      rw [ht] at hv
      cases hv
      rw [Txn.begin_of_origin huv.origin]
      exact (h.begun id u hf hn).widen_right h'.toElapsed
  committed id t ts ht hts := by
    rcases h'.committed id t ts ht hts with hd | ⟨u, hu, hus⟩
    · exact .inl (hd.widen_left h.toElapsed)
    · exact (h.committed id u ts hu hus).imp_left (·.widen_right h'.toElapsed)

/-- A new record, with the reading that it began with. -/
theorem dated_insert {t : Txn} (hr : s.clock.reading s.clock.taken = some t.beginTimestamp)
    (hc : s'.clock = s.ticked.clock) (hn : t.commitTimestamp = none)
    (hf : s.ledger.find? t.id = none) (h : s.Records (s.ledger.insert t) s') : s.Dated s' where
  toElapsed := h.toSpares.elapsed
  grows := (Ledger.grows_insert hf).trans (.of_txns h.txns)
  begun id u hu hi := by
    rw [h.find?, Ledger.find?_insert] at hu
    split at hu
    · cases hu
      exact ⟨s.clock.taken, Nat.le_refl _, by rw [hc]; exact Nat.lt_succ_self _, hr⟩
    · rw [hi] at hu
      cases hu
  committed id u ts hu hts := by
    rw [h.find?, Ledger.find?_insert] at hu
    split at hu
    · cases hu
      rw [hn] at hts
      cases hts
    · exact .inr ⟨u, hu, hts⟩

/-- A record that is finished, with the reading of the clock if it is committed. -/
theorem dated_finish {u : Txn} {o : Outcome} (hu : s.ledger.find? u.id = some u)
    (ha : u.state = .active)
    (ho : ∀ ts globalTs, o = .committed ts globalTs → s.Drawn s' ts)
    (h : s.Records (s.ledger.replace (u.finish o)) s') : s.Dated s' where
  toElapsed := h.toSpares.elapsed
  grows := (Ledger.grows_replace hu (.finish ha o)).trans (.of_txns h.txns)
  begun id t ht hi := by
    rw [h.find?, Ledger.find?_replace, hi] at ht
    split at ht <;> cases ht
  committed id t ts ht hts := by
    rw [h.find?, Ledger.find?_replace] at ht
    split at ht
    · obtain ⟨_, _, rfl⟩ := Option.map_eq_some_iff.1 ht
      cases o with
      | committed ts' globalTs =>
        cases hts
        exact .inl (ho _ _ rfl)
      | rolledBack => cases hts
    · exact .inr ⟨t, ht, hts⟩

/-- A transaction that is effectively committed in `s'` was so in `s`, at the same timestamp, or
that timestamp was drawn on the way. -/
theorem Dated.committed_before {max max' : Nat} {id : TxnId} {c c' : List Txn} (h : s.Dated s')
    (hs : s.ledger.Sound max) (hs' : s'.ledger.Sound max') (hc : s.ledger.Chain id c)
    (hc' : s'.ledger.Chain id c') (he : effectiveState c' = .ok (.committed ts)) :
    effectiveState c = .ok (.committed ts) ∨ s.Drawn s' ts := by
  obtain ⟨hno, root', hroot', _, hts⟩ := (hc'.effectiveState_eq_committed hs').1 he
  obtain ⟨hmem', hp'⟩ := hc'.getLast?_eq_some.1 hroot'
  obtain ⟨root, hmem, hbec⟩ := hc.mem_before hc' h.grows hmem'
  rcases h.committed root'.id root' ts (hc'.find?_of_mem hmem') hts with hd | ⟨u, hu, hus⟩
  · exact .inr hd
  · rw [Txn.id_of_origin hbec.origin, hc.find?_of_mem hmem] at hu
    cases hu
    refine .inl ((hc.effectiveState_eq_committed hs).2 ⟨fun t ht hb => ?_, root, ?_, ?_, hus⟩)
    · obtain ⟨t', ht', htt⟩ := hc.mem_later hc' h.grows ht
      exact hno t' ht' (by rw [htt.final (by rw [hb]; decide), hb])
    · exact hc.getLast?_eq_some.2 ⟨hmem, by rw [← Txn.parent_of_origin hbec.origin, hp']⟩
    · exact (hs root.id root (hc.find?_of_mem hmem)).stamped.2 (by rw [hus]; rfl)

end Services

namespace Lifecycle

open Services

theorem beginRoot_dated (isolation : Isolation) : Act.Keeps Dated (beginRoot isolation) := by
  intro s
  rcases beginRoot_cases isolation s with ⟨e, s', he, hs⟩ | ⟨ts, s', hr, hf, he, hs, hc⟩
  · rw [he]
    exact hs.dated
  · rw [he]
    exact dated_insert hr hc rfl hf hs

theorem beginChild_dated (config : Config) (parent : Txn) (isolation : Option Isolation)
    (additive : Bool) (table : Option Table) :
    Act.Keeps Dated (beginChild config parent isolation additive table) := by
  intro s
  rcases beginChild_cases config parent isolation additive table s with
    ⟨e, s', he, hs⟩ | ⟨ts, d, s', hr, hf, _, _, he, hs, hc⟩
  · rw [he]
    exact hs.dated
  · rw [he]
    exact dated_insert hr hc rfl hf hs

theorem commit_dated (config : Config) (t : Txn) : Act.Keeps Dated (commit config t) := by
  intro s
  rcases commit_cases config t s with ⟨e, s', he, hs⟩ | ⟨ts, g, u, s', hr, _, hu, ha, he, hs, hc⟩
  · rw [he]
    exact hs.dated
  · rw [he]
    rw [← Ledger.id_of_find? hu] at hu
    refine dated_finish hu ha (fun ts' _ ho => ?_) hs
    cases ho
    exact ⟨s.clock.taken, Nat.le_refl _, by rw [hc]; exact Nat.lt_succ_self _, hr⟩

theorem rollback_dated (t : Txn) : Act.Keeps Dated (rollback t) := by
  intro s
  rcases rollback_cases t s with
    ⟨e, s', he, hs⟩ | ⟨s', he, hs, _⟩ | ⟨u, s', _, hu, ha, he, hs, _⟩
  · rw [he]
    exact hs.dated
  · rw [he]
    exact hs.dated
  · rw [he]
    rw [← Ledger.id_of_find? hu] at hu
    exact dated_finish hu ha (fun _ _ ho => by cases ho) hs

theorem Call.run_dated (config : Config) (c : Call) : Act.Keeps Dated (c.run config) := by
  cases c with
  | beginRoot isolation => exact (beginRoot_dated isolation).map _
  | beginChild parent isolation additive table =>
    exact (beginChild_dated config parent isolation additive table).map _
  | elevate t table => exact Act.Keeps.map (fun s => (elevate_regrants config t table s).dated) _
  | elevateUnder t table parent =>
    exact Act.Keeps.map (fun s => (elevateUnder_regrants config t table parent s).dated) _
  | commit t => exact (commit_dated config t).map _
  | rollback t => exact (rollback_dated t).map _

theorem Step.dated {config : Config} {w w' : World} (h : Step config w w') :
    w.services.Dated w'.services := by
  cases h with
  | copy _ => exact .refl _
  | @call c _ => exact c.run_dated config w.services

/-- What is newly dated after a run was dated in the run. -/
theorem Reach.dated {config : Config} {w w' : World} (h : Reach config w w') :
    w.services.Dated w'.services := by
  induction h with
  | refl => exact .refl _
  | tail _ step ih => exact ih.trans _ _ _ step.dated

/-- In a run from a fresh world every record began with a timestamp that was drawn in it. -/
theorem Reach.begun {config : Config} {w₀ w : World} (h : Reach config w₀ w) (h₀ : w₀.Fresh)
    {id : TxnId} {t : Txn} (ht : w.ledger.find? id = some t) :
    w₀.services.Drawn w.services t.beginTimestamp := by
  refine h.dated.begun id t ht ?_
  rw [Ledger.find?, show w₀.services.ledger.txns = [] from h₀.txns]
  rfl

end Lifecycle

end NestedTxn
