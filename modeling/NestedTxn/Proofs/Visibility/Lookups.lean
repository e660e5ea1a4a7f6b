import NestedTxn.Proofs.Visibility.Walk

/-!
# What a filter finds, whatever is recorded

Here the memo may hold anything, and so may the ledger: cycles, missing parents, records that
disagree with the memo. While the ledger answers, a walk is still a function of what a look-up
finds.

* `SnapshotFilter.found?`: what a look-up finds, in the memo first.
* `SnapshotFilter.Peers p q`: two states from which the same is found, and which differ in the memo
  and in the calls of the ledger only. A look-up leaves a peer behind (`exec_lookUp`).
* `SnapshotFilter.climb`, `chainOf`: the walks of `ancestorsFrom` and `writerChain` over what is
  found (`exec_ancestorsFrom`, `exec_writerChain`).
-/

namespace NestedTxn

namespace SnapshotFilter

open Services

variable {p q r : SnapshotFilter × Services}

/-- What a look-up of `id` finds. -/
def found? (p : SnapshotFilter × Services) (id : TxnId) : Option Txn :=
  (p.1.memo.find? (·.id = id)).or (p.2.ledger.find? id)

/-- In both states the ledger answers and the same is found. They differ in the memo and in the
calls of the ledger only. -/
structure Peers (p q : SnapshotFilter × Services) : Prop where
  filter : q.1 = { p.1 with memo := q.1.memo }
  services : q.2 = { p.2 with ledger := { p.2.ledger with switch := q.2.ledger.switch } }
  up : p.2.ledger.switch.Up
  up_right : q.2.ledger.switch.Up
  found : found? q = found? p

theorem Peers.refl (h : p.2.ledger.switch.Up) : Peers p p := ⟨rfl, rfl, h, h, rfl⟩

theorem Peers.symm (h : Peers p q) : Peers q p where
  filter := by rw [h.filter]
  services := by rw [h.services]
  up := h.up_right
  up_right := h.up
  found := h.found.symm

theorem Peers.trans (h : Peers p q) (h' : Peers q r) : Peers p r where
  filter := by rw [h'.filter, h.filter]
  services := by rw [h'.services, h.services]
  up := h.up
  up_right := h'.up_right
  found := h'.found.trans h.found

theorem Peers.maxDepth (h : Peers p q) : q.1.maxDepth = p.1.maxDepth := by
  rw [h.filter]

theorem Peers.sink (h : Peers p q) : q.1.sink = p.1.sink := by
  rw [h.filter]

theorem Peers.ownVersion? (h : Peers p q) (writer : TxnId) :
    q.1.ownVersion? writer = p.1.ownVersion? writer := by
  rw [h.filter]
  rfl

theorem Peers.atResolution (h : Peers p q) (r : Resolution) :
    q.1.atResolution r = p.1.atResolution r := by
  rw [h.filter]
  rfl

theorem Peers.verdict (h : Peers p q) (c : List Txn) : q.1.verdict c = p.1.verdict c := by
  rw [h.filter]
  rfl

/-- What is looked up is found, then as before. -/
theorem exec_lookUp (hup : p.2.ledger.switch.Up) (id : TxnId) :
    ∃ q, (lookUp id).exec p = (.ok (found? p id), q) ∧ Peers p q := by
  obtain ⟨f, s⟩ := p
  have hnext : Peers (f, s) (f, s.withLedger s.nextLedger) := ⟨rfl, rfl, hup, hup.advance, rfl⟩
  rw [lookUp, Act.exec_bind_ok (Act.exec_get _)]
  cases hm : f.memo.find? (·.id = id) with
  | some t => exact ⟨(f, s), by simp [found?, hm], .refl hup⟩
  | none =>
    have hfetch := exec_fetch_up hup id
    cases hf : s.ledger.find? id with
    | none =>
      refine ⟨_, ?_, hnext⟩
      simp [Act.exec_bind, hfetch, found?, hm, hf]
    | some t =>
      cases ht : t.state.isTerminal with
      | false =>
        refine ⟨_, ?_, hnext⟩
        simp [Act.exec_bind, hfetch, found?, hm, hf, ht]
      | true =>
        refine ⟨({ f with memo := t :: f.memo }, s.withLedger s.nextLedger), ?_, rfl, rfl, hup,
          hup.advance, ?_⟩
        · simp [Act.exec_bind, Act.exec_map, Except.map, hfetch, found?, hm, hf, ht]
        · -- the ledger would give the same record again
          funext other
          rw [found?, found?, List.find?_cons]
          by_cases hid : t.id = other
          · obtain rfl : id = other := (Ledger.id_of_find? hf).symm.trans hid
            simp [hm, hf, hid]
          · simp [hid]

/-- The walk from an id up to the root, where `look` says what is found. -/
def climb (look : TxnId → Option Txn) :
    Nat → List TxnId → Option TxnId → Except AncestryFault (List Txn)
  | _, _, none => .ok []
  | 0, _, some id => .error (.malformedAt id)
  | budget + 1, seen, some id =>
    if id ∈ seen then .error (.malformedAt id)
    else
      match look id with
      | none => .error (.missingAncestor id)
      | some t => (climb look budget (id :: seen) t.parent).map (t :: ·)

/-- The walk from a writer up to the root. -/
def chainOf (look : TxnId → Option Txn) (maxDepth : Nat) (id : TxnId) :
    Except AncestryFault (List Txn) :=
  match look id with
  | none => .error (.unknownWriter id)
  | some t => (climb look maxDepth [t.id] t.parent).map (t :: ·)

theorem exec_ancestorsFrom (hup : p.2.ledger.switch.Up) (budget : Nat) (seen : List TxnId)
    (next : Option TxnId) :
    ∃ q, (ancestorsFrom budget seen next).exec p =
        ((climb (found? p) budget seen next).mapError .unresolvable, q) ∧ Peers p q := by
  induction budget generalizing p seen next with
  | zero => cases next <;> exact ⟨p, rfl, .refl hup⟩
  | succ budget ih =>
    cases next with
    | none => exact ⟨p, rfl, .refl hup⟩
    | some id =>
      rw [ancestorsFrom, climb]
      split
      · exact ⟨p, rfl, .refl hup⟩
      · obtain ⟨q, hq, hpq⟩ := exec_lookUp hup id
        rw [Act.exec_bind_ok hq]
        cases found? p id with
        | none => exact ⟨q, rfl, hpq⟩
        | some t =>
          obtain ⟨r, hr, hqr⟩ := ih hpq.up_right (id :: seen) t.parent
          rw [hpq.found] at hr
          refine ⟨r, ?_, hpq.trans hqr⟩
          cases hc : climb (found? p) budget (id :: seen) t.parent <;>
            simp [Act.exec_map, Except.map, hr, hc]

/-- The walk of `writerChain` is a function of what is found. -/
theorem exec_writerChain (hup : p.2.ledger.switch.Up) (id : TxnId) :
    ∃ q, (writerChain id).exec p =
        ((chainOf (found? p) p.1.maxDepth id).mapError .unresolvable, q) ∧ Peers p q := by
  obtain ⟨q, hq, hpq⟩ := exec_lookUp hup id
  rw [writerChain, chainOf, Act.exec_bind_ok hq]
  cases found? p id with
  | none => exact ⟨q, rfl, hpq⟩
  | some t =>
    obtain ⟨r, hr, hqr⟩ := exec_ancestorsFrom hpq.up_right q.1.maxDepth [t.id] t.parent
    rw [hpq.found, hpq.maxDepth] at hr
    refine ⟨r, ?_, hpq.trans hqr⟩
    have hof : (ancestorsOf t).exec q =
        ((climb (found? p) p.1.maxDepth [t.id] t.parent).mapError .unresolvable, r) := by
      rw [ancestorsOf, Act.exec_bind_ok (Act.exec_get q), hpq.maxDepth, hr]
    cases hc : climb (found? p) p.1.maxDepth [t.id] t.parent <;>
      simp [Act.exec_map, Except.map, hof, hc]

end SnapshotFilter

end NestedTxn
