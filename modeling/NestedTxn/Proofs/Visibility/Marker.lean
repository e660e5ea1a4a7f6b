import Mathlib.Data.List.TakeWhile
import NestedTxn.Proofs.Visibility.Decision

/-!
# Markers and walks

* `SnapshotFilter.meets`, `below`: whether the chain of a writer shares a node with that of the
  reader, and the nodes below the first shared one.
* `decision_marked_iff`: a marker with the final outcome of the writer decides like the walk iff
  `SnapshotFilter.MarkerFits` says so, or the writer belongs to the reader's family.
* `markerFits_of_active`: it does for every reader that is effectively active.
-/

namespace NestedTxn

namespace Ledger

variable {l : Ledger} {id p : TxnId} {t : Txn} {c c' pre rest : List Txn}

theorem Chain.of_append (h : l.Chain id (pre ++ t :: rest)) : l.Chain t.id (t :: rest) := by
  induction pre generalizing id with
  | nil => exact h.id_head ▸ h
  | cons u pre ih =>
    cases pre with
    | nil => exact h.tail h.parent_eq
    | cons v pre => exact ih (h.tail h.parent_eq)

/-- What lies above a shared node is shared. -/
theorem Chain.mem_of_shared (h : l.Chain id (pre ++ t :: rest)) (h' : l.Chain p c')
    (ht : t.id ∈ ids c') {u : Txn} (hu : u ∈ t :: rest) : u ∈ c' := by
  obtain ⟨v, hv, hid⟩ := mem_ids.1 ht
  obtain ⟨pre', rest', rfl, hr⟩ := h'.suffix hv
  rw [hid] at hr
  rw [hr.unique h.of_append]
  exact List.mem_append_right _ hu

end Ledger

theorem Visibility.eq_ofBool {v : Visibility} {b : Bool} :
    v = .ofBool b ↔ (v = .visible ↔ b = true) := by
  cases v <;> cases b <;> decide

namespace SnapshotFilter

variable {f : SnapshotFilter} {c : List Txn} {l : Ledger} {max : Nat} {t : Txn} {r : Resolution}

/-- Whether the chain `c` shares a node with that of the reader. -/
def meets (f : SnapshotFilter) (c : List Txn) : Bool := c.any fun t => f.isFamily t.id

/-- The nodes of `c` below the first one that it shares with the chain of the reader. -/
def below (f : SnapshotFilter) (c : List Txn) : List Txn := c.takeWhile fun t => !f.isFamily t.id

/-- The marker `r` decides like a walk along `c`. -/
def MarkerFits (f : SnapshotFilter) (c : List Txn) (r : Resolution) : Prop :=
  if c.length ≤ f.maxDepth + 1 then
    f.meets c = true → (f.atResolution r = .visible ↔ ∀ t ∈ f.below c, t.state = .committed)
  else f.atResolution r = .hidden

theorem isFamily_iff {id : TxnId} (ht : t.id = f.reader.id) :
    f.isFamily id = true ↔ id ∈ Ledger.ids (t :: f.ancestors) := by
  simp only [isFamily, Bool.or_eq_true, decide_eq_true_eq, List.any_eq_true, Ledger.mem_ids,
    List.exists_mem_cons_iff, ht]
  rw [@eq_comm _ id]

theorem ownVersion?_isSome (f : SnapshotFilter) (id : TxnId) :
    (f.ownVersion? id).isSome = f.isFamily id := by
  unfold ownVersion? isFamily
  split
  · next h => simp [h]
  · next h => simp [h, List.isSome_find?]

/-- A chain that meets that of the reader has a first shared node. -/
theorem dropWhile_of_meets (h : f.meets c = true) :
    ∃ u rest, c.dropWhile (fun t => !f.isFamily t.id) = u :: rest ∧ f.isFamily u.id = true := by
  induction c with
  | nil => cases h
  | cons v c ih =>
    rw [meets, List.any_cons, Bool.or_eq_true] at h
    by_cases hv : f.isFamily v.id = true
    · exact ⟨v, c, by simp [hv], hv⟩
    · simpa [hv] using ih (h.resolve_left hv)

theorem familyVisibility?_of_meets (h : f.meets c = true) :
    f.familyVisibility? c = some (.ofBool ((f.below c).all (·.state = .committed))) := by
  obtain ⟨u, rest, hd, _⟩ := dropWhile_of_meets h
  rw [familyVisibility?, hd]
  rfl

theorem familyVisibility?_of_not_meets (h : f.meets c = false) : f.familyVisibility? c = none := by
  have hd : c.dropWhile (fun t => !f.isFamily t.id) = [] := by
    rw [List.dropWhile_eq_nil_iff]
    intro t ht
    simpa using List.any_eq_false.1 h t ht
  rw [familyVisibility?, hd]

theorem ownVersion?_eq_none {id : TxnId} (h : f.isFamily id = false) : f.ownVersion? id = none := by
  rw [← Option.not_isSome_iff_eq_none, ownVersion?_isSome, h]
  exact Bool.false_ne_true

/-- A writer whose chain shares no node with that of the reader does not belong to its family. -/
theorem isFamily_of_not_meets {id : TxnId} (hc : l.Chain id c) (h : f.meets c = false) :
    f.isFamily id = false := by
  obtain ⟨v, rest, rfl, hv⟩ := hc.eq_cons
  rw [← Ledger.id_of_find? hv]
  simpa using List.any_eq_false.1 h v (by simp)

theorem meets_eq_false (ht : t.id = f.reader.id)
    (h : ∀ u ∈ c, u.id ∉ Ledger.ids (t :: f.ancestors)) : f.meets c = false :=
  List.any_eq_false.2 fun u hu hfam => h u hu ((isFamily_iff ht).1 hfam)

/-- A marker that is true decides like a walk iff it fits, or if it is not looked at. -/
theorem decision_marked_iff (f : SnapshotFilter) (writer : TxnId) {e : EffectiveState}
    (he : effectiveState c = .ok e) (hr : e.resolution? = some r) :
    f.decision writer c (some r) = f.decision writer c none ↔
      f.isFamily writer = true ∨ f.MarkerFits c r := by
  have hown := f.ownVersion?_isSome writer
  unfold decision
  cases ho : f.ownVersion? writer with
  | some v =>
    rw [ho] at hown
    exact ⟨fun _ => .inl hown.symm, fun _ => rfl⟩
  | none =>
    rw [ho] at hown
    rw [← hown]
    simp only [Option.getD_none, Option.elim, Option.isSome_none, Bool.false_eq_true, false_or]
    unfold byWalk MarkerFits
    split
    · cases hm : f.meets c with
      | true =>
        rw [verdict, familyVisibility?_of_meets hm]
        simp [Visibility.eq_ofBool]
      | false =>
        rw [verdict, familyVisibility?_of_not_meets hm, he]
        cases e with
        | active => cases hr
        | rolledBack =>
          cases hr
          simp [atResolution]
        | committed ts =>
          cases hr
          cases hv : f.atCommit ts <;> simp [atResolution, hv]
    · exact Iff.rfl

/-- The chain of a writer in the family of the reader is a part of that of the reader. -/
theorem mem_of_isFamily {id : TxnId} (hf : l.Chain f.reader.id (t :: f.ancestors))
    (hc : l.Chain id c) (hw : f.isFamily id = true) {u : Txn} (hu : u ∈ c) :
    u ∈ t :: f.ancestors := by
  obtain ⟨v, rest, rfl, hv⟩ := hc.eq_cons
  have hid : v.id ∈ Ledger.ids (t :: f.ancestors) := by
    rw [Ledger.id_of_find? hv]
    exact (isFamily_iff hf.id_head).1 hw
  have hc' : l.Chain id ([] ++ v :: rest) := hc
  exact hc'.mem_of_shared hf hid hu

/-- Every node of a chain that meets that of the reader lies below the first shared node or on
the chain of the reader. -/
theorem mem_below_or {id : TxnId} (hf : l.Chain f.reader.id (t :: f.ancestors))
    (hc : l.Chain id c) (hm : f.meets c = true) {u : Txn} (hu : u ∈ c) :
    u ∈ f.below c ∨ u ∈ t :: f.ancestors := by
  obtain ⟨v, rest, hd, hv⟩ := dropWhile_of_meets hm
  have hsplit : c = f.below c ++ v :: rest := by
    rw [below, ← hd, List.takeWhile_append_dropWhile]
  rw [hsplit] at hc hu
  rcases List.mem_append.1 hu with hu | hu
  · exact .inl hu
  · exact .inr (hc.mem_of_shared hf ((isFamily_iff hf.id_head).1 hv) hu)

/-! ## Kinds of writers -/

/-- The visibility of versions of a stranger in the given effective state. -/
def atState (f : SnapshotFilter) : EffectiveState → Visibility
  | .active => .ofBool (f.reader.isolation = .readUncommitted)
  | .committed ts => f.atCommit ts
  | .rolledBack => .hidden

theorem atCommit_eq_visible {ts : Timestamp} : f.atCommit ts = .visible ↔
    (f.reader.isolation = .snapshot → ts ≤ f.reader.beginTimestamp) := by
  cases h : f.reader.isolation <;> simp [atCommit, h, Visibility.ofBool]

/-- A version whose writer is too far from its root is hidden. -/
theorem decision_of_deep {id : TxnId} (hw : f.isFamily id = false)
    (hlen : ¬ c.length ≤ f.maxDepth + 1) : f.decision id c none = .hidden := by
  simp only [decision, ownVersion?_eq_none hw, Option.getD_none, Option.elim, byWalk, if_neg hlen]

/-- A version of a stranger is decided by the effective state of its writer. -/
theorem decision_of_not_meets {id : TxnId} (hc : l.Chain id c) (hm : f.meets c = false)
    (hlen : c.length ≤ f.maxDepth + 1) {e : EffectiveState} (he : effectiveState c = .ok e) :
    f.decision id c none = f.atState e := by
  simp only [decision, ownVersion?_eq_none (isFamily_of_not_meets hc hm), Option.getD_none,
    Option.elim, byWalk, if_pos hlen, verdict, familyVisibility?_of_not_meets hm, he]
  cases e with
  | active | rolledBack => rfl
  | committed ts => cases h : f.atCommit ts <;> simp [atState, h]

/-- A version of a relative that is not in the family is visible iff all nodes of the chain of its
writer that the chain of the reader lacks are committed. -/
theorem decision_of_meets {id : TxnId} (hf : l.Chain f.reader.id (t :: f.ancestors))
    (hc : l.Chain id c) (hw : f.isFamily id = false) (hm : f.meets c = true)
    (hlen : c.length ≤ f.maxDepth + 1) :
    f.decision id c none = .visible ↔ ∀ u ∈ c, f.isFamily u.id = true ∨ u.state = .committed := by
  simp only [decision, ownVersion?_eq_none hw, Option.getD_none, Option.elim, byWalk, if_pos hlen,
    verdict, familyVisibility?_of_meets hm]
  rw [eq_comm, Visibility.eq_ofBool]
  simp only [true_iff, List.all_eq_true, decide_eq_true_eq]
  refine ⟨fun h u hu => ?_, fun h u hu => ?_⟩
  · rcases mem_below_or hf hc hm hu with hb | hb
    · exact .inr (h u hb)
    · exact .inl ((isFamily_iff hf.id_head).2 (Ledger.mem_ids.2 ⟨u, hb, rfl⟩))
  · have hnot : f.isFamily u.id = false := by simpa using List.mem_takeWhile_imp hu
    refine (h u ((List.takeWhile_sublist _).subset hu)).resolve_left fun hfam => ?_
    rw [hnot] at hfam
    cases hfam

/-- Every true marker fits a reader that is effectively active. A writer that shares a node with
the reader shares its root, which is active; so the writer is rolled back, and that not by a shared
node. -/
theorem markerFits_of_active (hs : l.Sound max) (hf : l.Chain f.reader.id (t :: f.ancestors))
    (ha : effectiveState (t :: f.ancestors) = .ok .active) {writer : TxnId}
    (hc : l.Chain writer c) (hlen : c.length ≤ f.maxDepth + 1) {e : EffectiveState}
    (he : effectiveState c = .ok e) (hr : e.resolution? = some r) : f.MarkerFits c r := by
  rw [MarkerFits, if_pos hlen]
  intro hm
  obtain ⟨hno, root, hroot, hrs⟩ := (hf.effectiveState_eq_active hs).1 ha
  obtain ⟨u, hu, hfam⟩ := List.any_eq_true.1 hm
  have hlast : c.getLast? = some root := by
    rw [hc.mem_ids_of_mem hf (Ledger.mem_ids.2 ⟨u, hu, rfl⟩) ((isFamily_iff hf.id_head).1 hfam),
      hroot]
  cases e with
  | active => cases hr
  | committed ts =>
    obtain ⟨_, root', hroot', hrs', _⟩ := (hc.effectiveState_eq_committed hs).1 he
    rw [hlast] at hroot'
    cases hroot'
    rw [hrs] at hrs'
    cases hrs'
  | rolledBack =>
    cases hr
    obtain ⟨v, hv, hvs⟩ := (hc.effectiveState_eq_rolledBack hs).1 he
    have hvb : v ∈ f.below c := (mem_below_or hf hc hm hv).resolve_right fun h => hno v h hvs
    refine ⟨fun h => ?_, fun h => ?_⟩
    · cases h
    · have hvc := h v hvb
      rw [hvs] at hvc
      cases hvc

end SnapshotFilter

end NestedTxn
