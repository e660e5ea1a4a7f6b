import NestedTxn.Connection.Calls
import NestedTxn.Proofs.Lifecycle.Soundness

/-!
# Stacks and the ledger

* `Ledger.Stacked l st`: the entries of a stack are active records, each a child of the next one,
  the last a root. So the stack is the chain of its top entry, up to destinations
  (`Stacked.chain`), and its top entry is effectively active (`Stacked.effectiveState`).
* `Connection.Seated`: the stack of the connection is stacked, and empty unless it is active.
* `Connection.Moves p p'`: a seated connection in a sound ledger stays so. Records that are not on
  its stack stay the same up to destinations, and what is newly on its stack is newly recorded.
-/

namespace NestedTxn

/-- The entry without the destination of its transaction. -/
def Savepoint.bare (e : Savepoint) : Savepoint := { e with txn := e.txn.bare }

namespace Ledger

/-- The entries of a stack, top first, are active records, each a child of the next one; the last
one is a root. -/
inductive Stacked (l : Ledger) : List Savepoint → Prop
  | nil : Stacked l []
  | cons {e : Savepoint} {rest : List Savepoint} {t : Txn} :
      l.find? e.txn.id = some t → t.bare = e.txn.bare → e.txn.state = .active →
      e.txn.parent = rest.head?.map (·.txn.id) → Stacked l rest → Stacked l (e :: rest)

namespace Stacked

variable {l l' : Ledger} {st rest : List Savepoint} {e : Savepoint} {max : Nat}

theorem tail (h : l.Stacked (e :: rest)) : l.Stacked rest := by
  cases h
  assumption

theorem of_append {pre : List Savepoint} (h : l.Stacked (pre ++ st)) : l.Stacked st := by
  induction pre with
  | nil => exact h
  | cons _ _ ih => exact ih h.tail

theorem state (h : l.Stacked st) (he : e ∈ st) : e.txn.state = .active := by
  induction h with
  | nil => cases he
  | cons _ _ ha _ _ ih =>
    rcases List.mem_cons.1 he with rfl | he
    · exact ha
    · exact ih he

theorem find? (h : l.Stacked st) (he : e ∈ st) :
    ∃ t, l.find? e.txn.id = some t ∧ t.bare = e.txn.bare := by
  induction h with
  | nil => cases he
  | cons ht hb _ _ _ ih =>
    rcases List.mem_cons.1 he with rfl | he
    · exact ⟨_, ht, hb⟩
    · exact ih he

/-- The last entry is a root. -/
theorem parent_getLast? (h : l.Stacked st) (he : st.getLast? = some e) : e.txn.parent = none := by
  induction h with
  | nil => cases he
  | @cons d rest _ _ _ _ hp _ ih =>
    cases rest with
    | nil =>
      cases he
      exact hp
    | cons d' rest => exact ih (by rwa [List.getLast?_cons_cons] at he)

/-- The record of the last entry is a root. -/
theorem root_getLast? (h : l.Stacked st) (he : st.getLast? = some e) {u : Txn}
    (hu : l.find? e.txn.id = some u) : u.parent = none := by
  obtain ⟨t, ht, hb⟩ := h.find? (List.mem_of_getLast? he)
  rw [hu] at ht
  cases ht
  rw [Txn.parent_of_origin (Txn.origin_of_bare hb), h.parent_getLast? he]

/-- A stack stays stacked while its records stay the same up to destinations. -/
theorem keep (h : l.Stacked st) (hk : ∀ e ∈ st, ∀ t, l.find? e.txn.id = some t →
    ∃ u, l'.find? e.txn.id = some u ∧ u.bare = t.bare) : l'.Stacked st := by
  induction h with
  | nil => exact .nil
  | @cons e rest t ht hb ha hp _ ih =>
    obtain ⟨u, hu, hub⟩ := hk e (by simp) t ht
    exact .cons hu (hub.trans hb) ha hp (ih fun e he => hk e (by simp [he]))

/-- Destinations do not matter. -/
theorem of_bare {st' : List Savepoint} (h : l.Stacked st)
    (hb : st'.map Savepoint.bare = st.map Savepoint.bare) : l.Stacked st' := by
  induction h generalizing st' with
  | nil =>
    rw [List.map_eq_nil_iff.1 hb]
    exact .nil
  | @cons e rest t ht htb ha hp _ ih =>
    obtain ⟨e', rest', rfl, he, hr⟩ := List.map_eq_cons_iff.1 hb
    have het : e'.txn.bare = e.txn.bare := congrArg Savepoint.txn he
    have hid : e'.txn.id = e.txn.id := Txn.id_of_origin (Txn.origin_of_bare het)
    have hhead : rest'.head?.map (·.txn.id) = rest.head?.map (·.txn.id) := by
      have hh := congrArg (fun st => st.head?.map (·.txn.id)) hr
      simpa [Function.comp_def, Savepoint.bare] using hh
    refine .cons (t := t) (by rw [hid, ht]) (htb.trans het.symm)
      ((Txn.state_of_bare het).trans ha) ?_ (ih hr)
    rw [Txn.parent_of_origin (Txn.origin_of_bare het), hp, hhead]

/-- A stack is the chain of its top entry. -/
theorem chain (h : l.Stacked (e :: rest)) :
    ∃ t c, l.Chain e.txn.id (t :: c) ∧ t.bare = e.txn.bare ∧
      c.map Txn.bare = rest.map (·.txn.bare) := by
  induction rest generalizing e with
  | nil =>
    cases h with
    | @cons _ _ t ht hb _ hp _ =>
      refine ⟨t, [], .root ht ?_, hb, rfl⟩
      rw [← Txn.bare_parent, hb, Txn.bare_parent, hp]
      rfl
  | cons d rest ih =>
    cases h with
    | @cons _ _ t ht hb _ hp hr =>
      obtain ⟨u, c, hc, hub, hcb⟩ := ih hr
      refine ⟨t, u :: c, .child ht ?_ hc, hb, by simp [hub, hcb]⟩
      rw [← Txn.bare_parent, hb, Txn.bare_parent, hp]
      rfl

/-- The ids of a chain are those of its bare nodes. -/
theorem ids_of_bare {c : List Txn} (h : c.map Txn.bare = st.map (·.txn.bare)) :
    ids c = st.map (·.txn.id) := by
  have hi := congrArg (List.map (·.id)) h
  simpa [ids, Function.comp_def] using hi

theorem nodup (h : l.Stacked st) : (st.map (·.txn.id)).Nodup := by
  cases st with
  | nil => exact .nil
  | cons e rest =>
    obtain ⟨t, c, hc, hb, hcb⟩ := h.chain
    rw [← ids_of_bare (c := t :: c) (by simp [hb, hcb])]
    exact hc.nodup

/-- Every node of the chain of a stack is active. -/
theorem chain_state {c : List Txn} (h : l.Stacked st)
    (hc : c.map Txn.bare = st.map (·.txn.bare)) {t : Txn} (ht : t ∈ c) : t.state = .active := by
  have hm : t.bare ∈ st.map (·.txn.bare) := hc ▸ List.mem_map_of_mem ht
  obtain ⟨e, he, hb⟩ := List.mem_map.1 hm
  rw [← Txn.state_of_bare hb, h.state he]

/-- The top entry of a stack is effectively active. -/
theorem effectiveState (h : l.Stacked st) (hs : l.Sound max) {id : TxnId} {c : List Txn}
    (hc : l.Chain id c) (hb : c.map Txn.bare = st.map (·.txn.bare)) :
    NestedTxn.effectiveState c = .ok .active := by
  rw [hc.effectiveState_eq_active hs]
  obtain ⟨t, rest, rfl, _⟩ := hc.eq_cons
  refine ⟨fun u hu hr => ?_, _, List.getLast?_eq_some_getLast (by simp),
    h.chain_state hb (List.getLast_mem _)⟩
  rw [h.chain_state hb hu] at hr
  cases hr

end Stacked

end Ledger

namespace Connection

open Ledger

/-- The ids of the entries. -/
def ids (c : Connection) : List TxnId := c.stack.map (·.txn.id)

/-- The stack of the connection is what the ledger records. -/
structure Seated (c : Connection) (l : Ledger) : Prop where
  /-- Only an active connection has entries. -/
  idle : c.phase ≠ .active → c.stack = []
  stacked : l.Stacked c.stack

/-- What a call of a seated connection does. -/
structure Moved (max : Nat) (p p' : Connection × Services) : Prop where
  spares : p.2.Spares p'.2
  sound : p'.2.ledger.Sound max
  seated : p'.1.Seated p'.2.ledger
  grows : p.2.ledger.Grows p'.2.ledger
  /-- What is not on the stack is left alone. -/
  others : ∀ id ∉ p.1.ids, ∀ t, p.2.ledger.find? id = some t →
    ∃ u, p'.2.ledger.find? id = some u ∧ u.bare = t.bare
  /-- What comes onto the stack is new. -/
  fresh : ∀ id ∈ p'.1.ids, id ∈ p.1.ids ∨ p.2.ledger.find? id = none

/-- A seated connection in a sound ledger stays so. -/
def Moves (max : Nat) (p p' : Connection × Services) : Prop :=
  p.2.ledger.Sound max → p.1.Seated p.2.ledger → Moved max p p'

theorem Moves.refl (max : Nat) (p : Connection × Services) : Moves max p p :=
  fun hs hc => ⟨.refl _, hs, hc, .refl _, fun _ _ t ht => ⟨t, ht, rfl⟩, fun _ h => .inl h⟩

theorem Moves.trans (max : Nat) (p p' p'' : Connection × Services) (h : Moves max p p')
    (h' : Moves max p' p'') : Moves max p p'' := by
  intro hs hc
  have hm := h hs hc
  have hm' := h' hm.sound hm.seated
  refine ⟨hm.spares.trans hm'.spares, hm'.sound, hm'.seated, hm.grows.trans hm'.grows,
    fun id hid t ht => ?_, fun id hid => ?_⟩
  · obtain ⟨u, hu, hut⟩ := hm.others id hid t ht
    have hid' : id ∉ p'.1.ids := fun h => (hm.fresh id h).elim hid fun hn => by
      rw [ht] at hn
      cases hn
    obtain ⟨v, hv, hvu⟩ := hm'.others id hid' u hu
    exact ⟨v, hv, hvu.trans hut⟩
  · rcases hm'.fresh id hid with hid' | hn
    · exact hm.fresh id hid'
    · refine .inr ?_
      by_contra hf
      obtain ⟨t, ht⟩ := Option.ne_none_iff_exists'.1 hf
      obtain ⟨u, hu, _⟩ := hm.grows id t ht
      rw [hu] at hn
      cases hn

end Connection

end NestedTxn
