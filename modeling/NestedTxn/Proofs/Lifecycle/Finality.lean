import NestedTxn.Proofs.Lifecycle.Runs

/-!
# How final an effective state is

* `Chain.effectiveState_later`: what becomes of an effective state while the ledger grows. Rolled
  back stays rolled back. Committed stays committed, at the same timestamp, unless a node of the
  chain that was still recorded as active has been rolled back.
* `Lifecycle.effectiveState_lasts`: the same for the runs of the lifecycle.
* `Lifecycle.effectiveState_revoked`: the exception takes place. A child that its committed parent
  has settled is rolled back through a copy of it that is still active.
-/

namespace NestedTxn

namespace Ledger

variable {l l' : Ledger} {max max' : Nat} {id : TxnId} {c c' : List Txn}

/-- A node of `c` was recorded as active, and is recorded as rolled back in `l`. -/
def Revoked (l : Ledger) (c : List Txn) : Prop :=
  ∃ t ∈ c, t.state = .active ∧ ∃ u, l.find? t.id = some u ∧ u.state = .rolledBack

/-- While no node of `c` is rolled back, the later chain has a rolled back node iff one of `c` was
revoked. -/
theorem Chain.revoked_iff (h : l.Chain id c) (h' : l'.Chain id c') (hg : l.Grows l')
    (hno : ∀ t ∈ c, t.state ≠ .rolledBack) :
    l'.Revoked c ↔ ∃ u ∈ c', u.state = .rolledBack := by
  constructor
  · rintro ⟨t, ht, _, u, hu, hus⟩
    obtain ⟨v, hv, htv⟩ := h.mem_later h' hg ht
    have hf := h'.find?_of_mem hv
    rw [Txn.id_of_origin htv.origin, hu] at hf
    cases hf
    exact ⟨u, hv, hus⟩
  · rintro ⟨u, hu, hus⟩
    obtain ⟨t, ht, htu⟩ := h.mem_before h' hg hu
    refine ⟨t, ht, ?_, u, ?_, hus⟩
    · by_contra hta
      rw [htu.final hta] at hus
      exact hno t ht hus
    · rw [← Txn.id_of_origin htu.origin]
      exact h'.find?_of_mem hu

/-- What becomes of an effective state while the ledger grows. -/
theorem Chain.effectiveState_later (h : l.Chain id c) (h' : l'.Chain id c') (hs : l.Sound max)
    (hs' : l'.Sound max') (hg : l.Grows l') :
    (effectiveState c = .ok .rolledBack → effectiveState c' = .ok .rolledBack) ∧
      ∀ ts, effectiveState c = .ok (.committed ts) →
        ¬ l'.Revoked c ∧ effectiveState c' = .ok (.committed ts) ∨
          l'.Revoked c ∧ effectiveState c' = .ok .rolledBack := by
  constructor
  · rw [h.effectiveState_eq_rolledBack hs, h'.effectiveState_eq_rolledBack hs']
    rintro ⟨t, ht, hts⟩
    obtain ⟨u, hu, htu⟩ := h.mem_later h' hg ht
    exact ⟨u, hu, by rw [htu.final (by rw [hts]; decide), hts]⟩
  · intro ts hts
    obtain ⟨hno, r, hr, hrs, hrt⟩ := (h.effectiveState_eq_committed hs).1 hts
    rw [h'.effectiveState_eq_committed hs', h'.effectiveState_eq_rolledBack hs',
      h.revoked_iff h' hg hno]
    by_cases hb : ∃ u ∈ c', u.state = .rolledBack
    · exact .inr ⟨hb, hb⟩
    · obtain ⟨r', hr', hrr⟩ := h.getLast?_later h' hg hr
      obtain rfl := hrr.final (by rw [hrs]; decide)
      exact .inl ⟨hb, fun u hu hus => hb ⟨u, hu, hus⟩, r', hr', hrs, hrt⟩

end Ledger

namespace Lifecycle

/-- In every run, a transaction that is rolled back stays so, and one that is committed stays
committed at the same timestamp exactly as long as no node of its chain that was recorded as
active is rolled back; from then on it is rolled back. -/
theorem effectiveState_lasts {config : Config} {w₀ w w' : World} (h₀ : w₀.Fresh)
    (h : Reach config w₀ w) (h' : Reach config w w') {id : TxnId} {t : Txn}
    (ht : w.ledger.find? id = some t) :
    ∃ c c', w.ledger.Chain id c ∧ w'.ledger.Chain id c' ∧
      (effectiveState c = .ok .rolledBack → effectiveState c' = .ok .rolledBack) ∧
      ∀ ts, effectiveState c = .ok (.committed ts) →
        ¬ w'.ledger.Revoked c ∧ effectiveState c' = .ok (.committed ts) ∨
          w'.ledger.Revoked c ∧ effectiveState c' = .ok .rolledBack := by
  have hs := (h.genuine h₀).sound
  have hs' := ((h.trans h').genuine h₀).sound
  obtain ⟨c, hc⟩ := hs.chain ht
  obtain ⟨c', hc', _⟩ := hc.grows h'.grows
  exact ⟨t :: c, c', hc, hc', hc.effectiveState_later hc' hs hs' h'.grows⟩

/-! ## A settled child that is rolled back -/

/-- A root, a child of it, and the commit of the root: that settles the child. -/
def settledWorld : World :=
  ((World.empty.after {} (.beginRoot .snapshot)).after {}
    (.beginChild (.root 1 1 .snapshot) none false none)).after {}
    (.commit (.root 1 1 .snapshot))

/-- The child as it was handed out. -/
def settledChild : Txn := .child 2 2 (.root 1 1 .snapshot) .snapshot false none

theorem reach_settledWorld : Reach {} World.empty settledWorld := by
  refine .tail (.tail (.tail .refl (.call ?_)) (.call ?_)) (.call ?_)
  · intro t ht
    cases ht
  · intro t ht
    obtain rfl := List.mem_singleton.1 ht
    decide
  · intro t ht
    obtain rfl := List.mem_singleton.1 ht
    decide

/-- The world after the settled child was rolled back. -/
def revokedWorld : World := settledWorld.after {} (.rollback settledChild)

theorem reach_revokedWorld : Reach {} settledWorld revokedWorld := by
  refine .single (.call fun t ht => ?_)
  obtain rfl := List.mem_singleton.1 ht
  decide

/-- The root as it is recorded after its commit. -/
def settlingRoot : Txn := (Txn.root 1 1 .snapshot).finish (.committed 3 (some 3))

theorem settled_chain : settledWorld.ledger.Chain 2 [settledChild, settlingRoot] :=
  .child (by decide) rfl (.root (by decide) rfl)

theorem revoked_chain :
    revokedWorld.ledger.Chain 2 [settledChild.finish .rolledBack, settlingRoot] :=
  .child (by decide) rfl (.root (by decide) rfl)

/-- The general rule at this run. -/
theorem effectiveState_lasts_revoked :
    ∃ c c', settledWorld.ledger.Chain 2 c ∧ revokedWorld.ledger.Chain 2 c' ∧
      (effectiveState c = .ok .rolledBack → effectiveState c' = .ok .rolledBack) ∧
      ∀ ts, effectiveState c = .ok (.committed ts) →
        ¬ revokedWorld.ledger.Revoked c ∧ effectiveState c' = .ok (.committed ts) ∨
          revokedWorld.ledger.Revoked c ∧ effectiveState c' = .ok .rolledBack :=
  effectiveState_lasts World.empty_fresh reach_settledWorld reach_revokedWorld
    settled_chain.find?_head

/-- An effective state may change once more after it was committed. -/
theorem effectiveState_revoked :
    ∃ w₀ w w' c c', w₀.Fresh ∧ Reach {} w₀ w ∧ Reach {} w w' ∧ w.ledger.Chain 2 c ∧
      w'.ledger.Chain 2 c' ∧ effectiveState c = .ok (.committed 3) ∧
      effectiveState c' = .ok .rolledBack :=
  ⟨_, _, _, _, _, World.empty_fresh, reach_settledWorld, reach_revokedWorld, settled_chain,
    revoked_chain, rfl, rfl⟩

end Lifecycle

end NestedTxn
