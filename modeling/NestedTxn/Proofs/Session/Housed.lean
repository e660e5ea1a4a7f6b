import NestedTxn.Proofs.Session.Orderly

/-!
# Where active transactions are

* `Ledger.Concluded l id`: the outermost transaction above `id` is committed.
* `Connection.Housed elsewhere c l`: every active transaction is on the stack, or elsewhere, or
  concluded. Whatever a seated connection does, that stays so (`Changes.housed`): an entry that is
  still active leaves the stack only with the commit of the bottom entry.
-/

namespace NestedTxn

/-- The outermost transaction above `id` is committed. -/
def Ledger.Concluded (l : Ledger) (id : TxnId) : Prop :=
  ∃ k r, l.Chain id k ∧ k.getLast? = some r ∧ r.state = .committed

theorem Ledger.Concluded.grows {l l' : Ledger} {id : TxnId} (h : l.Concluded id)
    (hg : l.Grows l') : l'.Concluded id := by
  obtain ⟨k, r, hk, hr, hc⟩ := h
  obtain ⟨k', hk', _⟩ := hk.grows hg
  obtain ⟨r', hr', hrr⟩ := hk.getLast?_later hk' hg hr
  exact ⟨k', r', hk', hr', by rw [hrr.final (by rw [hc]; decide), hc]⟩

/-- Only the last entry of a stack has no parent. -/
theorem Ledger.Stacked.getLast?_of_parent {l : Ledger} {st : List Savepoint} {e : Savepoint}
    (h : l.Stacked st) (he : e ∈ st) (hp : e.txn.parent = none) : st.getLast? = some e := by
  induction h with
  | nil => cases he
  | @cons d rest _ _ _ _ hd _ ih =>
    rcases List.mem_cons.1 he with rfl | he
    · rw [hd] at hp
      cases rest with
      | nil => rfl
      | cons _ _ => cases hp
    · rw [List.getLast?_cons, ih he]
      rfl

namespace Connection

open Ledger Services

variable {config : Config} {max : Nat} {c : Connection} {l l' : Ledger} {s : Services}
  {p p' : Connection × Services} {elsewhere : TxnId → Prop}

/-- The root of a chain that shares a node with a stack is the bottom entry. -/
theorem Seated.bottom_root (hc : c.Seated s.ledger) {id : TxnId} {k : List Txn}
    (hk : s.ledger.Chain id k) (hm : ∃ t ∈ k, t.id ∈ c.ids) :
    ∃ r e, k.getLast? = some r ∧ c.stack.getLast? = some e ∧ e.txn.id = r.id := by
  obtain ⟨r, hr, hid, _⟩ := hc.root_mem hk hm
  obtain ⟨e, he, heq⟩ := List.mem_map.1 hid
  refine ⟨r, e, hr, hc.stacked.getLast?_of_parent he ?_, heq⟩
  obtain ⟨t, ht, hb⟩ := hc.stacked.find? he
  obtain ⟨hmem, hp⟩ := hk.getLast?_eq_some.1 hr
  rw [heq, hk.find?_of_mem hmem] at ht
  cases ht
  rw [← Txn.parent_of_origin (Txn.origin_of_bare hb), hp]

/-- Every active transaction is on the stack, or elsewhere, or concluded. -/
def Housed (elsewhere : TxnId → Prop) (c : Connection) (l : Ledger) : Prop :=
  ∀ id t, l.find? id = some t → t.state = .active →
    id ∈ c.ids ∨ elsewhere id ∨ l.Concluded id

/-- What is newly active is on the stack, and what left the stack is no longer active or is
concluded. -/
theorem Housed.step {c' : Connection} (h : c.Housed elsewhere l) (hg : l.Grows l')
    (hnew : ∀ id t, l'.find? id = some t → t.state = .active → l.find? id = none → id ∈ c'.ids)
    (hleft : ∀ id t, l'.find? id = some t → t.state = .active → id ∈ c.ids →
      id ∈ c'.ids ∨ l'.Concluded id) : c'.Housed elsewhere l' := by
  intro id t ht ha
  cases hf : l.find? id with
  | none => exact .inl (hnew id t ht ha hf)
  | some t₀ =>
    have ha₀ : t₀.state = .active := by
      obtain ⟨u, hu, htu⟩ := hg id t₀ hf
      rw [ht] at hu
      cases hu
      by_contra hn
      exact hn (htu.final hn ▸ ha)
    rcases h id t₀ hf ha₀ with hid | hid | hid
    · exact (hleft id t ht ha hid).imp_right .inr
    · exact .inr (.inl hid)
    · exact .inr (.inr (hid.grows hg))

/-- Whatever a seated connection does, active transactions stay housed. -/
theorem Shift.housed (h : Shift config p p') (hc : p.1.Seated p.2.ledger)
    (hh : p.1.Housed elsewhere p.2.ledger) : p'.1.Housed elsewhere p'.2.ledger := by
  refine hh.step h.dated.grows (fun id t ht _ hn => (h.begun ht hn).1) fun id t ht ha hid => ?_
  left
  cases h with
  | stay hst _ _ =>
    rw [ids, hst]
    exact hid
  | regrant hr hk =>
    rw [ids_of_bare (bare_of_kept (fun _ => hc.stacked.find?) hr hk)]
    exact hid
  | root _ _ _ _ _ | child _ _ _ _ _ _ _ _ => exact List.mem_cons_of_mem _ hid
  | @drop c s s' e rest u o hst hu _ _ hr =>
    rw [ids, hst, List.map_cons] at hid
    rcases List.mem_cons.1 hid with rfl | hid
    · -- the entry that leaves the stack is finished
      rw [hr.find?, find?_replace, Txn.finish_id, if_pos (id_of_find? hu), hu] at ht
      cases ht
      cases o <;> cases ha
    · exact hid
  | skip hst hdone _ => exact (hc.perched.not_finished hst hdone).elim

theorem Shifts.housed (h : Shifts config p p') (hs : p.2.ledger.Sound config.maxAncestorDepth.toNat)
    (hc : p.1.Seated p.2.ledger) (hh : p.1.Housed elsewhere p.2.ledger) :
    p'.1.Housed elsewhere p'.2.ledger := by
  induction h with
  | refl => exact hh
  | tail h step ih => exact step.housed (Shifts.moves h hs hc).seated ih

/-- The commit of the bottom entry concludes all entries. -/
theorem Cleared.housed {e : Savepoint} {u : Txn} {ts : Timestamp} {globalTs : Option Timestamp}
    (h : Cleared p p' e u ts globalTs) (hs : p.2.ledger.Sound max) (hc : p.1.Seated p.2.ledger)
    (hh : p.1.Housed elsewhere p.2.ledger) : p'.1.Housed elsewhere p'.2.ledger := by
  have hg := h.dated.grows
  refine hh.step hg (fun id t ht _ hn => ?_) fun id t ht _ hid => .inr ?_
  · rw [h.records.find?, find?_replace, hn] at ht
    split at ht <;> cases ht
  · obtain ⟨d, hd, rfl⟩ := List.mem_map.1 hid
    obtain ⟨t₀, ht₀, _⟩ := hc.stacked.find? hd
    obtain ⟨k, hk⟩ := hs.chain ht₀
    obtain ⟨r, b, hr, hb, hbr⟩ := hc.bottom_root hk ⟨t₀, by simp, id_of_find? ht₀ ▸ hid⟩
    obtain ⟨k', hk', _⟩ := hk.grows hg
    obtain ⟨r', hr', hrr⟩ := hk.getLast?_later hk' hg hr
    refine ⟨k', r', hk', hr', ?_⟩
    -- the root is the bottom entry, whose record is committed now
    rw [h.bottom] at hb
    cases hb
    have hfind := hk'.find?_of_mem (List.mem_of_getLast? hr')
    rw [Txn.id_of_origin hrr.origin, ← hbr, h.records.find?, find?_replace, Txn.finish_id,
      if_pos (id_of_find? h.found), h.found] at hfind
    cases hfind
    rfl

theorem Changes.housed (h : Changes config p p')
    (hs : p.2.ledger.Sound config.maxAncestorDepth.toNat) (hc : p.1.Seated p.2.ledger)
    (hh : p.1.Housed elsewhere p.2.ledger) : p'.1.Housed elsewhere p'.2.ledger := by
  rcases h with h | ⟨e, u, ts, globalTs, h⟩
  · exact h.housed hs hc hh
  · exact h.housed hs hc hh

end Connection

end NestedTxn
