import NestedTxn.Proofs.Visibility.Marker

/-!
# What a filter reads

For a reader that is effectively active, in a ledger that answers, markers that are true make no
difference. So what a filter finds depends on the records, the writers of the versions and nothing
else.

* `Ledger.lineage`: the chain of an id, by a bounded walk.
* `SnapshotFilter.sees`: whether a version is visible, from the records alone.
* `SnapshotFilter.Ready`: a filter in such a state; it stays so (`Browses.ready`).
* `firstVisible_of_classify`, `visibleRows_of_classify`: the first visible version of a list and the
  rows of a list (`rowsSeen`), where classifications do not depend on each other.
* `exec_classify_ready`, `exec_firstVisible`, `exec_visibleRows`: a version, the newest visible one
  of a list, and the rows of a list, for a filter that is ready.
-/

namespace NestedTxn

namespace Ledger

/-- The chain of `id`, at most as many nodes as the first argument says. -/
def lineage (l : Ledger) : Nat → TxnId → List Txn
  | 0, _ => []
  | n + 1, id =>
    match l.find? id with
    | none => []
    | some t =>
      match t.parent with
      | none => [t]
      | some p => t :: l.lineage n p

theorem lineage_congr {l l' : Ledger} (h : l'.txns = l.txns) (n : Nat) (id : TxnId) :
    l'.lineage n id = l.lineage n id := by
  induction n generalizing id with
  | zero => rfl
  | succ n ih =>
    rw [lineage, lineage, find?_congr h]
    simp only [ih]

theorem Chain.lineage_eq {l : Ledger} {id : TxnId} {c : List Txn} (h : l.Chain id c) {n : Nat}
    (hn : c.length ≤ n) : l.lineage n id = c := by
  induction h generalizing n with
  | root ht hp =>
    cases n with
    | zero => cases hn
    | succ n => simp [lineage, ht, hp]
  | child ht hp _ ih =>
    cases n with
    | zero => cases hn
    | succ n => simp [lineage, ht, hp, ih (Nat.le_of_succ_le_succ hn)]

/-- The version was written by a recorded transaction, and its marker is true. -/
def Truthful (l : Ledger) (v : RowVersion) : Prop :=
  ∃ writer c, v.writer = some writer ∧ l.Chain writer c ∧
    ∀ r, v.resolution = some r → l.Resolves writer r

theorem Truthful.of_txns {l l' : Ledger} {v : RowVersion} (h : l.Truthful v)
    (he : l'.txns = l.txns) : l'.Truthful v := by
  obtain ⟨writer, c, hw, hc, hr⟩ := h
  exact ⟨writer, c, hw, hc.of_txns he, fun r hv => (hr r hv).of_txns he⟩

end Ledger

namespace SnapshotFilter

open Services

variable {max : Nat} {f : SnapshotFilter} {s : Services} {p p' : SnapshotFilter × Services}

/-- Whether the filter shows the version, from the records alone. -/
def sees (f : SnapshotFilter) (l : Ledger) (v : RowVersion) : Bool :=
  v.writer.any fun w => f.decision w (l.lineage (f.maxDepth + 1) w) none = .visible

/-- A filter whose reader is effectively active, in a sound ledger that answers. -/
structure Ready (max : Nat) (p : SnapshotFilter × Services) : Prop where
  sound : p.2.ledger.Sound max
  up : p.2.ledger.switch.Up
  remembers : p.1.Remembers p.2.ledger
  /-- Every chain is walked. -/
  deep : max ≤ p.1.maxDepth
  reader : ∃ t, p.2.ledger.Chain p.1.reader.id (t :: p.1.ancestors) ∧
    effectiveState (t :: p.1.ancestors) = .ok .active

theorem Browses.ready (h : Browses p p') (hp : Ready max p) : Ready max p' := by
  obtain ⟨t, hc, he⟩ := hp.reader
  refine ⟨hp.sound.of_txns h.reads.txns, h.reads.up hp.up, h.remembers hp.remembers, ?_, t, ?_, ?_⟩
  · rw [h.maxDepth]
    exact hp.deep
  · rw [h.filter]
    exact hc.of_txns h.reads.txns
  · rw [h.filter]
    exact he

theorem sees_congr {l l' : Ledger} (h : l'.txns = l.txns) (f : SnapshotFilter) :
    f.sees l' = f.sees l := by
  funext v
  simp only [sees, Ledger.lineage_congr h]

theorem Browses.sees (h : Browses p p') : p'.1.sees p'.2.ledger = p.1.sees p.2.ledger := by
  rw [h.filter, sees_congr h.reads.txns]
  rfl

/-- A marker that is true is not noticed. -/
theorem exec_classify_ready {v : RowVersion} (hp : Ready max (f, s)) (hv : s.ledger.Truthful v) :
    ∃ q, (classify v).exec (f, s) = (.ok (.ofBool (f.sees s.ledger v)), q) ∧
      Browses (f, s) q := by
  obtain ⟨writer, c, hw, hc, hres⟩ := hv
  obtain ⟨q, hq, hb⟩ := exec_classify hw hc hp.remembers hp.up
  refine ⟨q, ?_, hb⟩
  obtain ⟨t, rest, rfl, _⟩ := hc.eq_cons
  have hlen : (t :: rest).length ≤ f.maxDepth + 1 :=
    Nat.succ_le_succ (Nat.le_trans (hc.length_le hp.sound) hp.deep)
  have hdec : f.decision writer (t :: rest) v.resolution =
      f.decision writer (t :: rest) none := by
    cases hvr : v.resolution with
    | none => rfl
    | some r =>
      obtain ⟨c', e, hc', he, her⟩ := hres r hvr
      obtain rfl := hc.unique hc'
      obtain ⟨u, hu, ha⟩ := hp.reader
      exact (decision_marked_iff f writer he her).2
        (.inr (markerFits_of_active hp.sound hu ha hc hlen he her))
  rw [hq, hdec, sees, hw, Option.any_some, hc.lineage_eq hlen]
  cases f.decision writer (t :: rest) none <;> rfl

/-! ## Lists of versions -/

/-- The first visible value of each key of a list of versions; `decided` is the key whose visible
version was found last. -/
def rowsSeen (sees : RowVersion → Bool) : Option Key → List RowVersion → List (Key × Bytes)
  | _, [] => []
  | decided, v :: vs =>
    if decided = some v.key then rowsSeen sees decided vs
    else if sees v then
      (v.value.map (v.key, ·)).toList ++ rowsSeen sees (some v.key) vs
    else rowsSeen sees decided vs

section Lists

variable {I : SnapshotFilter × Services → Prop} {Q : RowVersion → Prop} {see : RowVersion → Bool}
  (h : ∀ p v, I p → Q v → ∃ q, (classify v).exec p = (.ok (.ofBool (see v)), q) ∧ I q)
include h

/-- Where the visibility of a version does not depend on what was classified before, the first
visible one is found. -/
theorem firstVisible_of_classify (hp : I p) (vs : List RowVersion) (hv : ∀ v ∈ vs, Q v) :
    ∃ q, (firstVisible vs).exec p = (.ok (vs.find? see), q) ∧ I q := by
  induction vs generalizing p with
  | nil => exact ⟨p, rfl, hp⟩
  | cons v vs ih =>
    obtain ⟨q, hq, hiq⟩ := h p v hp (hv v (by simp))
    rw [firstVisible, Act.exec_bind_ok hq]
    cases hsee : see v with
    | true => exact ⟨q, by simp [Visibility.ofBool, hsee], hiq⟩
    | false =>
      obtain ⟨r, hr, hir⟩ := ih hiq fun v hm => hv v (by simp [hm])
      exact ⟨r, by simp [Visibility.ofBool, hsee, hr], hir⟩

/-- And so are the rows. -/
theorem visibleRows_of_classify (hp : I p) (decided : Option Key) (vs : List RowVersion)
    (hv : ∀ v ∈ vs, Q v) :
    ∃ q, (visibleRows decided vs).exec p = (.ok (rowsSeen see decided vs), q) ∧ I q := by
  induction vs generalizing p decided with
  | nil => exact ⟨p, rfl, hp⟩
  | cons v vs ih =>
    have hvs : ∀ v ∈ vs, Q v := fun v hm => hv v (by simp [hm])
    rw [visibleRows, rowsSeen]
    split
    · exact ih hp decided hvs
    · obtain ⟨q, hq, hiq⟩ := h p v hp (hv v (by simp))
      rw [Act.exec_bind_ok hq]
      cases hsee : see v with
      | true =>
        obtain ⟨r, hr, hir⟩ := ih hiq (some v.key) hvs
        refine ⟨r, ?_, hir⟩
        cases hval : v.value <;> simp [Visibility.ofBool, Act.exec_map, Except.map, hr]
      | false =>
        obtain ⟨r, hr, hir⟩ := ih hiq decided hvs
        exact ⟨r, by simp [Visibility.ofBool, hr], hir⟩

end Lists

/-- What is classified from a state that looked things up only is classified as before. -/
theorem classify_browsed (hp : Ready max (f, s)) (v : RowVersion) (hb : Browses (f, s) p)
    (hv : s.ledger.Truthful v) :
    ∃ q, (classify v).exec p = (.ok (.ofBool (f.sees s.ledger v)), q) ∧ Browses (f, s) q := by
  obtain ⟨q, hq, hb'⟩ := exec_classify_ready (f := p.1) (s := p.2) (hb.ready hp)
    (hv.of_txns hb.reads.txns)
  refine ⟨q, ?_, hb.trans hb'⟩
  rw [hb.sees] at hq
  exact hq

theorem exec_firstVisible (hp : Ready max (f, s)) (vs : List RowVersion)
    (hv : ∀ v ∈ vs, s.ledger.Truthful v) :
    ∃ q, (firstVisible vs).exec (f, s) = (.ok (vs.find? (f.sees s.ledger)), q) ∧
      Browses (f, s) q :=
  firstVisible_of_classify (fun _ v => classify_browsed hp v) (.refl _) vs hv

theorem exec_visibleRows (hp : Ready max (f, s)) (decided : Option Key) (vs : List RowVersion)
    (hv : ∀ v ∈ vs, s.ledger.Truthful v) :
    ∃ q, (visibleRows decided vs).exec (f, s) =
        (.ok (rowsSeen (f.sees s.ledger) decided vs), q) ∧
      Browses (f, s) q :=
  visibleRows_of_classify (fun _ v => classify_browsed hp v) (.refl _) decided vs hv

end SnapshotFilter

end NestedTxn
