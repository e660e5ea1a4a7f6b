import NestedTxn.Proofs.Lifecycle.Runs
import NestedTxn.Proofs.Visibility.Marker

/-!
# Cached outcomes in the runs of the lifecycle

* `SnapshotFilter.classify_marked_iff`: exactly when a version that carries the final outcome of
  its writer is classified like the same version without it. It always is for a reader that is
  effectively active.
* `SnapshotFilter.classify_marked_differs`: for a reader that is recorded as active, but whose
  ancestor was rolled back, it need not be.
-/

namespace NestedTxn

namespace SnapshotFilter

open Lifecycle

/-- In every world that a run reaches, a fresh filter for a recorded reader classifies a version
that carries the final outcome of its writer like the same version without it exactly if the
writer belongs to the family of the reader or the marker fits. -/
theorem classify_marked_iff {config : Config} {w₀ w : World} (h₀ : w₀.Fresh)
    (h : Reach config w₀ w) (hup : w.ledger.switch.Up) {r : Txn}
    (hr : w.ledger.find? r.id = some r) {writer : TxnId} {c : List Txn}
    (hc : w.ledger.Chain writer c) {e : EffectiveState} (he : effectiveState c = .ok e)
    {res : Resolution} (hres : e.resolution? = some res) {v : RowVersion}
    (hv : v.writer = some writer) (sink : Option Sink) (maxDepth : Nat) :
    (config.maxAncestorDepth.toNat ≤ maxDepth →
      ∃ f s, (load r sink maxDepth).exec w.services = (.ok f, s)) ∧
    ∀ f s, (load r sink maxDepth).exec w.services = (.ok f, s) →
      w.ledger.Chain r.id (r :: f.ancestors) ∧
      ∃ a b, ((classify { v with resolution := some res }).exec (f, s)).1 = .ok a ∧
        ((classify { v with resolution := none }).exec (f, s)).1 = .ok b ∧
        (a = b ↔ f.isFamily writer = true ∨ f.MarkerFits c res) ∧
        (config.maxAncestorDepth.toNat ≤ maxDepth →
          effectiveState (r :: f.ancestors) = .ok .active → a = b) := by
  have hs := (h.genuine h₀).sound
  obtain ⟨cr, hcr⟩ := hs.chain hr
  obtain ⟨f, s, hreads, hrem, hf, hload⟩ :=
    exec_load sink maxDepth hcr rfl rfl hup
  constructor
  · intro hmax
    rcases hload with ⟨_, hload⟩ | ⟨hlt, _, _⟩
    · exact ⟨f, s, hload⟩
    · have hle := hcr.length_le hs
      omega
  · intro f' s' hload'
    rcases hload with ⟨_, hload⟩ | ⟨_, _, hload⟩
    · rw [hload] at hload'
      cases hload'
      have hcf : w.ledger.Chain r.id (r :: f.ancestors) := by rw [hf]; exact hcr
      have hreader : f.reader = r := by rw [hf]
      have hc' := hc.of_txns hreads.txns
      obtain ⟨p, hp, _⟩ := exec_classify (v := { v with resolution := some res }) hv hc' hrem
        (hreads.up hup)
      obtain ⟨q, hq, _⟩ := exec_classify (v := { v with resolution := none }) hv hc' hrem
        (hreads.up hup)
      have hiff := decision_marked_iff f writer he hres
      refine ⟨hcf, _, _, by rw [hp], by rw [hq], hiff, fun hmax ha => hiff.2 (.inr ?_)⟩
      obtain ⟨t, rest, rfl, _⟩ := hc.eq_cons
      have hlen := hc.length_le hs
      have hcf' : w.ledger.Chain f.reader.id (r :: f.ancestors) := by rw [hreader]; exact hcf
      refine markerFits_of_active hs hcf' ha hc ?_ he hres
      rw [hf, List.length_cons]
      dsimp only
      omega
    · rw [hload] at hload'
      cases hload'

/-! ## A reader that is only recorded as active -/

/-- A root, a committed child of it, another child, and the rollback of the root. -/
def lostWorld : World :=
  ((((World.empty.after {} (.beginRoot .snapshot)).after {}
    (.beginChild (.root 1 1 .snapshot) none false none)).after {}
    (.commit (.child 2 2 (.root 1 1 .snapshot) .snapshot false none))).after {}
    (.beginChild (.root 1 1 .snapshot) none false none)).after {}
    (.rollback (.root 1 1 .snapshot))

/-- The child that is still recorded as active. -/
def lostReader : Txn := .child 4 4 (.root 1 1 .snapshot) .snapshot false none

/-- The records of the child that committed and of the root. -/
def lostChain : List Txn :=
  [(Txn.child 2 2 (.root 1 1 .snapshot) .snapshot false none).finish (.committed 3 none),
    (Txn.root 1 1 .snapshot).finish .rolledBack]

/-- A version that the child wrote which committed. -/
def lostVersion : RowVersion := { key := [1], writer := some 2, value := some [2] }

theorem reach_lostWorld : Reach {} World.empty lostWorld := by
  refine .tail (.tail (.tail (.tail (.tail .refl (.call ?_)) (.call ?_)) (.call ?_)) (.call ?_))
    (.call ?_)
  · intro t ht
    cases ht
  all_goals
    intro t ht
    obtain rfl := List.mem_singleton.1 ht
    decide

theorem lostChain_chain : lostWorld.ledger.Chain 2 lostChain :=
  .child (by decide) rfl (.root (by decide) rfl)

theorem lostWorld_up : lostWorld.ledger.switch.Up := fun _ _ => rfl

/-- The filter for the lost reader. -/
def lostFilter : SnapshotFilter where
  reader := lostReader
  ancestors := [(Txn.root 1 1 .snapshot).finish .rolledBack]
  maxDepth := 64
  memo := [(Txn.root 1 1 .snapshot).finish .rolledBack]

/-- The general rule for this reader and this version. -/
theorem classify_marked_iff_lost :
    ∃ f s a b, (load lostReader none 64).exec lostWorld.services = (.ok f, s) ∧
      ((classify { lostVersion with resolution := some .rolledBack }).exec (f, s)).1 = .ok a ∧
      ((classify { lostVersion with resolution := none }).exec (f, s)).1 = .ok b ∧
      (a = b ↔ f.isFamily 2 = true ∨ f.MarkerFits lostChain .rolledBack) := by
  have h := classify_marked_iff World.empty_fresh reach_lostWorld lostWorld_up
    (r := lostReader) (by decide) lostChain_chain (e := .rolledBack) rfl rfl (v := lostVersion) rfl
    none 64
  obtain ⟨f, s, hl⟩ := h.1 (by decide)
  obtain ⟨_, a, b, ha, hb, hab, _⟩ := h.2 f s hl
  exact ⟨f, s, a, b, hl, ha, hb, hab⟩

/-- A reader that is recorded as active may see a version whose writer is rolled back, until the
version is marked. -/
theorem classify_marked_differs :
    ∃ w₀ w r f s c, w₀.Fresh ∧ Reach {} w₀ w ∧ w.ledger.find? r.id = some r ∧ r.state = .active ∧
      (load r none 64).exec w.services = (.ok f, s) ∧ w.ledger.Chain 2 c ∧
      effectiveState c = .ok .rolledBack ∧
      ((classify { lostVersion with resolution := some .rolledBack }).exec (f, s)).1 = .ok .hidden ∧
      ((classify lostVersion).exec (f, s)).1 = .ok .visible :=
  ⟨World.empty, lostWorld, lostReader, lostFilter, _, lostChain, World.empty_fresh,
    reach_lostWorld, by decide, rfl, rfl, lostChain_chain, rfl, rfl, rfl⟩

end SnapshotFilter

end NestedTxn
