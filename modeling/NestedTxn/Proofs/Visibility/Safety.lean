import NestedTxn.Proofs.Lifecycle.Runs
import NestedTxn.Proofs.Visibility.Marker

/-!
# Rolled back work is not seen

* `SnapshotFilter.load_ok`, `classify_loaded`: what a fresh filter holds, and how it classifies an
  unmarked version, also where the ledger does not always answer.
* `live_of_visible`: a version that is visible to a reader without a rolled back node on its chain
  has no rolled back node on the chain of its writer. The rules of a filter look at different parts
  of that chain: the part that none of them looks at is shared with the chain of the reader.
* `SnapshotFilter.classify_visible_live`: the same for the runs of the lifecycle.
-/

namespace NestedTxn

namespace SnapshotFilter

open Services Lifecycle

variable {s s' : Services} {r u : Txn} {cr c : List Txn} {sink : Option Sink} {maxDepth : Nat}
  {f : SnapshotFilter}

/-! ## Fresh filters -/

section

variable (hr : s.ledger.Chain r.id (u :: cr)) (hru : u.origin = r.origin)
  (hl : (load r sink maxDepth).exec s = (.ok f, s'))
include hr hru hl

/-- A filter for a reader holds the reader as it was given, and its ancestors as recorded. -/
theorem load_ok :
    s.Reads s' ∧ f.Remembers s'.ledger ∧ f.reader = r ∧ f.ancestors = cr ∧
      f.maxDepth = maxDepth ∧ cr.length ≤ maxDepth := by
  have hid : r.id = u.id := hr.id_head.symm
  obtain ⟨f', x, y, t, hreads, hrem, hf, hx, rfl | ⟨rfl, _⟩, hxf⟩ :=
    load_answers sink maxDepth (hid ▸ hr) hid (Txn.parent_of_origin hru).symm
  · rw [hl] at hx
    cases hx
    rcases hxf with ⟨hlen, he⟩ | ⟨_, fault, he⟩
    · cases he
      exact ⟨hreads, hrem, by rw [hf], by rw [hf], by rw [hf], hlen⟩
    · cases he
  · rw [hl] at hx
    cases hx

/-- A chain that shares no node with that of the reader is one of a stranger to the filter. -/
theorem meets_loaded (hapart : ∀ t ∈ c, t.id ∉ Ledger.ids (u :: cr)) : f.meets c = false := by
  obtain ⟨_, _, hreader, hanc, _⟩ := load_ok hr hru hl
  exact meets_eq_false (t := u) (by rw [hreader, hr.id_head]) (by rw [hanc]; exact hapart)

/-- A fresh filter classifies an unmarked version by the chain of its writer, unless the ledger does
not answer. -/
theorem classify_loaded {v : RowVersion} {writer : TxnId} (hw : v.writer = some writer)
    (hv : v.resolution = none) (hc : s.ledger.Chain writer c) :
    s.Answers (.ok (f.decision writer c none)) ((classify v).exec (f, s')).1 := by
  obtain ⟨hreads, hrem, _⟩ := load_ok hr hru hl
  obtain ⟨y, p, hx, _, hy⟩ := classify_answers hw (hc.of_txns hreads.txns) hrem
  rw [hv] at hy
  rw [hx]
  exact hy.before hreads

end

/-! ## Writers of visible versions -/

/-- A reader without a rolled back node on its chain sees no version whose writer has one. -/
theorem live_of_visible {l : Ledger} {max : Nat} (hs : l.Sound max)
    (hf : l.Chain f.reader.id (u :: f.ancestors))
    (hlive : ∀ t ∈ u :: f.ancestors, t.state ≠ .rolledBack) {writer : TxnId}
    (hc : l.Chain writer c) (hv : f.decision writer c none = .visible) {t : Txn} (ht : t ∈ c) :
    t.state ≠ .rolledBack := by
  cases hfam : f.isFamily writer with
  | true => exact hlive t (mem_of_isFamily hf hc hfam ht)
  | false =>
    have hlen : c.length ≤ f.maxDepth + 1 := by
      by_contra hdeep
      rw [decision_of_deep hfam hdeep] at hv
      cases hv
    cases hm : f.meets c with
    | true =>
      rcases (decision_of_meets hf hc hfam hm hlen).1 hv t ht with hshared | hcommitted
      · -- the node is shared with the chain of the reader
        obtain ⟨x, hx, hid⟩ := Ledger.mem_ids.1 ((isFamily_iff hf.id_head).1 hshared)
        have hfx := hf.find?_of_mem hx
        rw [hid, hc.find?_of_mem ht] at hfx
        cases hfx
        exact hlive t hx
      · rw [hcommitted]
        decide
    | false =>
      intro hback
      have he := (hc.effectiveState_eq_rolledBack hs).2 ⟨t, ht, hback⟩
      rw [decision_of_not_meets hc hm hlen he] at hv
      cases hv

/-- In every world that a run reaches, a fresh filter for a transaction without a rolled back node
on its chain shows no unmarked version whose writer has one. -/
theorem classify_visible_live {config : Config} {w₀ w : World} (h₀ : w₀.Fresh)
    (h : Reach config w₀ w) (hr : w.ledger.Chain r.id (u :: cr)) (hru : r.Becomes u)
    (hlive : ∀ t ∈ u :: cr, t.state ≠ .rolledBack)
    (hl : (load r sink maxDepth).exec w.services = (.ok f, s')) {v : RowVersion} {writer : TxnId}
    {t : Txn} (hw : v.writer = some writer) (hv : v.resolution = none)
    (ht : w.ledger.find? writer = some t)
    (hvis : ((classify v).exec (f, s')).1 = .ok .visible) :
    ∃ c, w.ledger.Chain writer c ∧ ∀ t ∈ c, t.state ≠ .rolledBack := by
  have hs := (h.genuine h₀).sound
  obtain ⟨c, hc⟩ := hs.chain ht
  obtain ⟨_, _, hreader, hanc, _⟩ := load_ok hr hru.origin hl
  refine ⟨t :: c, hc, fun x hx => ?_⟩
  rcases classify_loaded hr hru.origin hl hw hv hc with he | ⟨he, _⟩
  · rw [hvis] at he
    rw [← hreader, ← hanc] at hr
    rw [← hanc] at hlive
    exact live_of_visible hs hr hlive hc (Except.ok.inj he).symm hx
  · rw [hvis] at he
    cases he

/-! ## A child that sees what its sibling committed -/

/-- A root, a committed child of it, and another child. -/
def siblingWorld : World :=
  (((World.empty.after {} (.beginRoot .snapshot)).after {}
    (.beginChild (.root 1 1 .snapshot) none false none)).after {}
    (.commit (.child 2 2 (.root 1 1 .snapshot) .snapshot false none))).after {}
    (.beginChild (.root 1 1 .snapshot) none false none)

/-- The child that is active. -/
def sibling : Txn := .child 4 4 (.root 1 1 .snapshot) .snapshot false none

theorem reach_siblingWorld : Reach {} World.empty siblingWorld := by
  refine .tail (.tail (.tail (.tail .refl (.call ?_)) (.call ?_)) (.call ?_)) (.call ?_)
  · intro t ht
    cases ht
  all_goals
    intro t ht
    obtain rfl := List.mem_singleton.1 ht
    decide

/-- What the committed child wrote is visible, and no node of its chain is rolled back. -/
theorem classify_visible_live_sibling :
    ∃ f s, (load sibling none 64).exec siblingWorld.services = (.ok f, s) ∧
      ((classify { key := [1], writer := some 2 }).exec (f, s)).1 = .ok .visible ∧
      ∃ c, siblingWorld.ledger.Chain 2 c ∧ ∀ t ∈ c, t.state ≠ .rolledBack := by
  have hlive : ∀ t ∈ [sibling, Txn.root 1 1 .snapshot], t.state ≠ .rolledBack := by decide
  obtain ⟨f, s, hl, hvis⟩ : ∃ f s, (load sibling none 64).exec siblingWorld.services = (.ok f, s) ∧
      ((classify { key := [1], writer := some 2 }).exec (f, s)).1 = .ok .visible :=
    ⟨_, _, rfl, rfl⟩
  have ht : siblingWorld.ledger.find? 2 =
      some ((Txn.child 2 2 (.root 1 1 .snapshot) .snapshot false none).finish
        (.committed 3 none)) := by
    decide
  exact ⟨f, s, hl, hvis, classify_visible_live World.empty_fresh reach_siblingWorld
    (.child (by decide) rfl (.root (by decide) rfl)) (.refl sibling) hlive hl rfl rfl ht hvis⟩

end SnapshotFilter

end NestedTxn
