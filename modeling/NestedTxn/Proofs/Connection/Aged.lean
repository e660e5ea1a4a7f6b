import NestedTxn.Proofs.Connection.Perched

/-!
# Parents begin before their children

* `Services.Aged s₀ s`: every record of `s` began after `s₀`, and as long as the clock rises, after
  its parent. `Aged.begin_le`: so no ancestor began later.
* `Aged.dated`: what is newly recorded keeps that, if its parent was recorded before. All changes
  of a perched connection are of this kind (`Changes.aged`).
* `Seated.begin_le`: the bottom entry of a stack began no later than the top entry.
-/

namespace NestedTxn

/-- What rises for long rises for a shorter time. -/
theorem Clock.Rises.mono {c : Clock} {m n k : Nat} (h : c.Rises m n) (hk : k ≤ n) : c.Rises m k :=
  fun i j a b hm hij hj => h i j a b hm hij (Nat.lt_of_lt_of_le hj hk)

namespace Services

/-- Every record of `s` began after `s₀`, and if the clock rose since, after its parent. -/
structure Aged (s₀ s : Services) : Prop extends s₀.Elapsed s where
  begun : ∀ id t, s.ledger.find? id = some t → s₀.Drawn s t.beginTimestamp
  parent : s₀.clock.Rises s₀.clock.taken s.clock.taken → ∀ id t p u,
    s.ledger.find? id = some t → t.parent = some p → s.ledger.find? p = some u →
    u.beginTimestamp < t.beginTimestamp

variable {s₀ s s' : Services} {max : Nat}

theorem aged_of_nil (h : s.ledger.txns = []) : s.Aged s := by
  have hf : ∀ id t, s.ledger.find? id ≠ some t := fun id t ht => by
    simp [Ledger.find?, h] at ht
  exact ⟨⟨rfl, Nat.le_refl _⟩, fun id t ht => absurd ht (hf id t),
    fun _ id t _ _ ht => absurd ht (hf id t)⟩

/-- New records keep that, if their parents were recorded before. -/
theorem Aged.dated (h : s₀.Aged s) (hs : s.ledger.Sound max) (hd : s.Dated s')
    (hnew : ∀ id t p, s'.ledger.find? id = some t → s.ledger.find? id = none →
      t.parent = some p → s.ledger.find? p ≠ none) : s₀.Aged s' := by
  have hold : ∀ {id t u}, s.ledger.find? id = some t → s'.ledger.find? id = some u →
      u.origin = t.origin := by
    intro id t u ht hu
    obtain ⟨v, hv, htv⟩ := hd.grows id t ht
    rw [hu] at hv
    cases hv
    exact htv.origin
  refine ⟨h.toElapsed.trans hd.toElapsed, fun id t ht => ?_, fun hr id t p u ht hp hu => ?_⟩
  · cases hf : s.ledger.find? id with
    | none => exact (hd.begun id t ht hf).widen_left h.toElapsed
    | some t₀ =>
      rw [Txn.begin_of_origin (hold hf ht)]
      exact (h.begun id t₀ hf).widen_right hd.toElapsed
  · cases hf : s.ledger.find? id with
    | none =>
      obtain ⟨u₀, hu₀⟩ := Option.ne_none_iff_exists'.1 (hnew id t p ht hf hp)
      rw [Txn.begin_of_origin (hold hu₀ hu)]
      exact (h.begun p u₀ hu₀).lt (hd.begun id t ht hf) h.toElapsed hr
    | some t₀ =>
      have hp₀ : t₀.parent = some p := by rw [← Txn.parent_of_origin (hold hf ht), hp]
      obtain ⟨_, u₀, hu₀, _⟩ := (hs id t₀ hf).child p hp₀
      rw [Txn.begin_of_origin (hold hf ht), Txn.begin_of_origin (hold hu₀ hu)]
      exact h.parent (hr.mono hd.taken) id t₀ p u₀ hf hp₀ hu₀

/-- Nothing is newly recorded. -/
theorem Aged.of_txns (h : s₀.Aged s) (hs : s.ledger.Sound max) (hd : s.Dated s')
    (ht : s'.ledger.txns = s.ledger.txns) : s₀.Aged s' :=
  h.dated hs hd fun id t _ hf hn => by
    rw [Ledger.find?_congr ht, hn] at hf
    cases hf

/-- No ancestor began later. -/
theorem Aged.begin_le (h : s₀.Aged s) (hr : s₀.clock.Rises s₀.clock.taken s.clock.taken)
    {id : TxnId} {t u : Txn} {k : List Txn} (hk : s.ledger.Chain id (t :: k))
    (hu : u ∈ t :: k) : u.beginTimestamp ≤ t.beginTimestamp := by
  induction k generalizing id t with
  | nil => exact Nat.le_of_eq (by rw [List.mem_singleton.1 hu])
  | cons t' k ih =>
    rcases List.mem_cons.1 hu with rfl | hu
    · exact Nat.le_refl _
    · have hp := hk.parent_eq
      have hk' := hk.tail hp
      exact Nat.le_trans (ih hk' hu)
        (Nat.le_of_lt (h.parent hr id t t'.id t' hk.find?_head hp hk'.find?_head))

end Services

namespace Connection

open Ledger Services

variable {config : Config} {p p' : Connection × Services} {s₀ : Services}

/-- What a connection begins is a root, or the child of a record. -/
theorem Shift.parent_recorded (h : Shift config p p') (hp : p.1.Perched p.2.ledger) {id q : TxnId}
    {t : Txn} (ht : p'.2.ledger.find? id = some t) (hn : p.2.ledger.find? id = none)
    (hq : t.parent = some q) : p.2.ledger.find? q ≠ none := by
  rcases (h.begun ht hn).2 with rfl | ⟨e, rest, d, hst, rfl⟩
  · cases hq
  · cases hq
    exact hp.recorded (List.mem_map_of_mem (by simp [hst]))

theorem Shifts.aged (h : Shifts config p p') (hp : p.1.Perched p.2.ledger)
    (hs : p.2.ledger.Sound config.maxAncestorDepth.toNat) (ha : s₀.Aged p.2) :
    s₀.Aged p'.2 := by
  induction h with
  | refl => exact ha
  | tail h step ih =>
    obtain ⟨hp, hs⟩ := Shifts.perched h hp hs
    exact ih.dated hs step.dated fun id t q ht hn hq => step.parent_recorded hp ht hn hq

/-- Whatever a connection does, parents began before their children. -/
theorem Changes.aged (h : Changes config p p') (hp : p.1.Perched p.2.ledger)
    (hs : p.2.ledger.Sound config.maxAncestorDepth.toNat) (ha : s₀.Aged p.2) :
    s₀.Aged p'.2 := by
  have hd := h.dated
  rcases h with h | ⟨e, u, ts, globalTs, h⟩
  · exact h.aged hp hs ha
  · -- a commit records nothing new
    refine ha.dated hs hd fun id t q ht hn _ => ?_
    rw [h.records.find?, find?_replace, hn] at ht
    split at ht <;> cases ht

/-- The bottom entry of a stack began no later than the top entry. -/
theorem Seated.begin_le {c : Connection} {s : Services} (hc : c.Seated s.ledger)
    (ha : s₀.Aged s) (hr : s₀.clock.Rises s₀.clock.taken s.clock.taken) {e d : Savepoint}
    {rest : List Savepoint} (hst : c.stack = e :: rest) (hd : c.stack.getLast? = some d) :
    d.txn.beginTimestamp ≤ e.txn.beginTimestamp := by
  have hstack := hc.stacked
  rw [hst] at hstack
  obtain ⟨t, k, hk, hb, hkb⟩ := hstack.chain
  have hbare : (t :: k).map Txn.bare = c.stack.map (·.txn.bare) := by simp [hst, hb, hkb]
  have hmem : d.txn.bare ∈ c.stack.map (·.txn.bare) :=
    List.mem_map_of_mem (f := fun e : Savepoint => e.txn.bare) (List.mem_of_getLast? hd)
  obtain ⟨u, hu, hub⟩ := List.mem_map.1 (hbare ▸ hmem)
  have hle := ha.begin_le hr hk hu
  rwa [Txn.begin_of_origin (Txn.origin_of_bare hub),
    Txn.begin_of_origin (Txn.origin_of_bare hb)] at hle

end Connection

end NestedTxn
