import NestedTxn.Proofs.Session.Calls

/-!
# What the leaf of a stack sees

For a reader whose chain is active throughout, as the chain of every stack is, there are four kinds
of versions. The `decision_…` lemmas say what a filter decides on them, the `Seated.sees_…` lemmas
what the leaf of a seated connection sees:

* a version with a rolled back node on the chain of its writer is hidden;
* a version whose writer is effectively committed is visible from its commit on;
* a version whose writer meets the stack, and has only committed nodes off it, is visible;
* a version whose writer is effectively active and does not meet the stack is hidden.
-/

namespace NestedTxn

namespace SnapshotFilter

variable {l : Ledger} {max : Nat} {f : SnapshotFilter} {t : Txn} {writer : TxnId} {c : List Txn}

section

variable (hf : l.Chain f.reader.id (t :: f.ancestors))
  (ha : ∀ u ∈ t :: f.ancestors, u.state = .active) (hs : l.Sound max)

include hf ha

/-- A writer in the family of the reader has an active chain. -/
theorem active_of_isFamily (hc : l.Chain writer c) (hw : f.isFamily writer = true) {u : Txn}
    (hu : u ∈ c) : u.state = .active :=
  ha u (mem_of_isFamily hf hc hw hu)

/-- A writer that is not active throughout does not belong to the family of the reader. -/
theorem isFamily_eq_false (hc : l.Chain writer c) {u : Txn} (hu : u ∈ c)
    (hua : u.state ≠ .active) : f.isFamily writer = false :=
  Bool.eq_false_iff.2 fun hw => hua (active_of_isFamily hf ha hc hw hu)

include hs

/-- The reader is effectively active. -/
theorem effectiveState_reader : effectiveState (t :: f.ancestors) = .ok .active := by
  rw [hf.effectiveState_eq_active hs]
  refine ⟨fun u hu hr => ?_, _, List.getLast?_eq_some_getLast (by simp),
    ha _ (List.getLast_mem (by simp))⟩
  rw [ha u hu] at hr
  cases hr

variable (hc : l.Chain writer c) (hlen : c.length ≤ f.maxDepth + 1)
include hc hlen

/-- A final outcome decides as a marker would. -/
theorem decision_final {e : EffectiveState} {r : Resolution} (he : effectiveState c = .ok e)
    (hr : e.resolution? = some r) {u : Txn} (hu : u ∈ c) (hua : u.state ≠ .active) :
    f.decision writer c none = f.atResolution r := by
  have hm := markerFits_of_active hs hf (effectiveState_reader hf ha hs) hc hlen he hr
  rw [← (decision_marked_iff f writer he hr).2 (.inr hm), decision,
    ownVersion?_eq_none (isFamily_eq_false hf ha hc hu hua)]
  rfl

/-- A version with a rolled back node on the chain of its writer is hidden. -/
theorem decision_undone {u : Txn} (hu : u ∈ c) (hr : u.state = .rolledBack) :
    f.decision writer c none = .hidden := by
  have he := (hc.effectiveState_eq_rolledBack hs).2 ⟨u, hu, hr⟩
  exact decision_final hf ha hs hc hlen he rfl hu (by rw [hr]; decide)

/-- A version is visible from the commit of its writer on. -/
theorem decision_published {ts : Timestamp} (he : effectiveState c = .ok (.committed ts)) :
    f.decision writer c none = f.atCommit ts := by
  obtain ⟨_, u, hu, hus, _⟩ := (hc.effectiveState_eq_committed hs).1 he
  exact decision_final hf ha hs hc hlen he rfl (List.mem_of_getLast? hu) (by rw [hus]; decide)

end

/-- A version is visible if its writer meets the chain of the reader and all nodes off that chain
are committed. -/
theorem decision_own (hf : l.Chain f.reader.id (t :: f.ancestors)) (hc : l.Chain writer c)
    (ha : ∀ u ∈ f.ancestors, u.state = .active) (hlen : c.length ≤ f.maxDepth + 1)
    (hm : f.meets c = true) (hoff : ∀ u ∈ c, f.isFamily u.id = true ∨ u.state = .committed) :
    f.decision writer c none = .visible := by
  cases hw : f.isFamily writer with
  | false => exact (decision_of_meets hf hc hw hm hlen).2 hoff
  | true =>
    -- the reader itself, or an ancestor, none of which is rolled back
    have hown := (f.ownVersion?_isSome writer).trans hw
    obtain ⟨v, ho⟩ := Option.isSome_iff_exists.1 hown
    rw [decision, ho]
    rw [ownVersion?] at ho
    split at ho
    · exact (Option.some.inj ho).symm
    · obtain ⟨a, hfind, rfl⟩ := Option.map_eq_some_iff.1 ho
      simp [ha a (List.mem_of_find?_eq_some hfind), Visibility.ofBool]

/-- A version whose writer is effectively active and a stranger to the reader is hidden. -/
theorem decision_stranger (hc : l.Chain writer c) (hlen : c.length ≤ f.maxDepth + 1)
    (hm : f.meets c = false) (he : effectiveState c = .ok .active)
    (hi : f.reader.isolation = .snapshot) : f.decision writer c none = .hidden := by
  rw [decision_of_not_meets hc hm hlen he, atState, hi]
  rfl

end SnapshotFilter

namespace Connection

open SnapshotFilter

variable {max : Nat} {c : Connection} {l : Ledger} {e : Savepoint} {rest : List Savepoint}
  {v : RowVersion} {writer : TxnId} {k : List Txn}

/-- The filter of a leaf, and its decision on a version. -/
theorem Seated.sees_eq (hc : c.Seated l) (hs : l.Sound max) (hst : c.stack = e :: rest)
    (hw : v.writer = some writer) (hk : l.Chain writer k) :
    ∃ (f : SnapshotFilter) (t : Txn), f.reader = e.txn ∧ l.Chain f.reader.id (t :: f.ancestors) ∧
      (∀ u ∈ t :: f.ancestors, u.state = .active) ∧ Ledger.ids (t :: f.ancestors) = c.ids ∧
      k.length ≤ f.maxDepth + 1 ∧
      l.sees max e.txn v = decide (f.decision writer k none = .visible) := by
  obtain ⟨t, a, ha, hid, _, hb⟩ := Session.leaf_chain (s := { ledger := l }) hc hst
  have hstack := hc.stacked
  rw [hst] at hstack
  obtain ⟨_, _, rfl, _⟩ := hk.eq_cons
  refine ⟨{ reader := e.txn, ancestors := a, maxDepth := max }, t, rfl, hid ▸ ha,
    fun u hu => hstack.chain_state hb hu, ?_, Nat.succ_le_succ (hk.length_le hs), ?_⟩
  · rw [ids, hst]
    exact Ledger.Stacked.ids_of_bare hb
  · rw [Ledger.sees, SnapshotFilter.sees, hw, Option.any_some, hid,
      ha.lineage_eq (Nat.succ_le_succ (ha.length_le hs)),
      hk.lineage_eq (Nat.succ_le_succ (hk.length_le hs))]
    rfl

variable (hc : c.Seated l) (hs : l.Sound max) (hst : c.stack = e :: rest)
  (hw : v.writer = some writer) (hk : l.Chain writer k)
include hc hs hst hw hk

theorem Seated.sees_undone {u : Txn} (hu : u ∈ k) (hr : u.state = .rolledBack) :
    l.sees max e.txn v = false := by
  obtain ⟨f, t, _, hf, ha, _, hlen, he⟩ := hc.sees_eq hs hst hw hk
  rw [he, decision_undone hf ha hs hk hlen hu hr]
  rfl

theorem Seated.sees_published {ts : Timestamp} (hp : effectiveState k = .ok (.committed ts))
    (hi : e.txn.isolation = .snapshot) :
    l.sees max e.txn v = decide (ts ≤ e.txn.beginTimestamp) := by
  obtain ⟨f, t, hr, hf, ha, _, hlen, he⟩ := hc.sees_eq hs hst hw hk
  rw [he, decision_published hf ha hs hk hlen hp, atCommit, hr, hi]
  by_cases hts : ts ≤ e.txn.beginTimestamp <;> simp [Visibility.ofBool, hts]

theorem Seated.sees_own (hm : ∃ u ∈ k, u.id ∈ c.ids)
    (hoff : ∀ u ∈ k, u.id ∈ c.ids ∨ u.state = .committed) : l.sees max e.txn v = true := by
  obtain ⟨f, t, _, hf, ha, hids, hlen, he⟩ := hc.sees_eq hs hst hw hk
  have hfam : ∀ id, f.isFamily id = true ↔ id ∈ c.ids := fun id => by
    rw [isFamily_iff hf.id_head, hids]
  have hmeets : f.meets k = true := by
    obtain ⟨u, hu, hid⟩ := hm
    exact List.any_eq_true.2 ⟨u, hu, (hfam u.id).2 hid⟩
  rw [he, decision_own hf hk (fun u hu => ha u (List.mem_cons_of_mem _ hu)) hlen hmeets
    fun u hu => (hoff u hu).imp_left (hfam u.id).2]
  rfl

theorem Seated.sees_stranger (hno : ∀ u ∈ k, u.id ∉ c.ids)
    (ha : effectiveState k = .ok .active) (hi : e.txn.isolation = .snapshot) :
    l.sees max e.txn v = false := by
  obtain ⟨f, t, hr, hf, _, hids, hlen, he⟩ := hc.sees_eq hs hst hw hk
  have hmeets : f.meets k = false := meets_eq_false hf.id_head fun u hu => hids ▸ hno u hu
  rw [he, decision_stranger hk hlen hmeets ha (by rw [hr, hi])]
  rfl

end Connection

end NestedTxn
