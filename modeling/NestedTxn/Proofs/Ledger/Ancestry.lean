import Mathlib.Data.Set.Card
import Mathlib.Logic.Relation
import NestedTxn.Proofs.Ledger.Chain

/-!
# Ancestors

* `Ledger.ParentOf l id p`: the record of `id` names `p` as its parent. `Ledger.Ancestor l id a`:
  `a` is reached from `id` by one or more steps from child to parent.
* `Chain.ancestor_iff`: the ancestors of a transaction are the nodes of its chain after the first.
  In a sound ledger they are therefore recorded (`Sound.recorded`), no transaction is among its own
  (`Sound.not_ancestor_self`), and a record is as deep as it has ancestors (`Sound.encard_ancestors`).
* `Ancestor.grows`: ancestors stay ancestors.
* `Ledger.Above l next c`: where a walk has come to `next`, the nodes of `c` are ahead of it.
-/

namespace NestedTxn

namespace Ledger

/-- The record of `id` names `p` as its parent. -/
def ParentOf (l : Ledger) (id p : TxnId) : Prop :=
  ∃ t, l.find? id = some t ∧ t.parent = some p

/-- `a` is the parent of `id`, or the parent of its parent, and so on. -/
def Ancestor (l : Ledger) : TxnId → TxnId → Prop := Relation.TransGen l.ParentOf

variable {l l' : Ledger} {max : Nat} {id p a : TxnId} {t : Txn} {c : List Txn}

theorem parentOf_iff (ht : l.find? id = some t) : l.ParentOf id p ↔ t.parent = some p := by
  constructor
  · rintro ⟨u, hu, hp⟩
    rw [ht] at hu
    cases hu
    exact hp
  · exact fun hp => ⟨t, ht, hp⟩

/-- An ancestor is the parent, or an ancestor of the parent. -/
theorem ancestor_iff_parent (hp : l.ParentOf id p) : l.Ancestor id a ↔ a = p ∨ l.Ancestor p a := by
  constructor
  · intro h
    obtain ⟨q, hq, hqa⟩ := Relation.TransGen.head'_iff.1 h
    obtain ⟨t, ht, htp⟩ := hp
    have hqp : q = p := by
      rw [parentOf_iff ht, htp] at hq
      cases hq
      rfl
    subst hqp
    exact Relation.reflTransGen_iff_eq_or_transGen.1 hqa
  · rintro (rfl | h)
    · exact .single hp
    · exact .head hp h

/-- A transaction without a parent has no ancestors. -/
theorem not_ancestor_of_root (ht : l.find? id = some t) (hp : t.parent = none) :
    ¬ l.Ancestor id a := by
  intro h
  obtain ⟨q, hq, _⟩ := Relation.TransGen.head'_iff.1 h
  rw [parentOf_iff ht, hp] at hq
  cases hq

/-- The ancestors of a transaction are the nodes of its chain after the first. -/
theorem Chain.ancestor_iff (h : l.Chain id (t :: c)) : l.Ancestor id a ↔ a ∈ ids c := by
  induction c generalizing id t with
  | nil =>
    have hroot := not_ancestor_of_root (a := a) h.find?_head h.parent_eq_none
    simp [hroot]
  | cons u c ih =>
    have hp : l.ParentOf id u.id := ⟨t, h.find?_head, h.parent_eq⟩
    have htail : l.Chain u.id (u :: c) := h.tail h.parent_eq
    rw [ancestor_iff_parent hp, ih htail, ids_cons, List.mem_cons]

/-! ## Sound ledgers -/

section Sound

variable (hs : l.Sound max) (ht : l.find? id = some t)
include hs ht

/-- The ancestors of a record are recorded. -/
theorem Sound.recorded (ha : l.Ancestor id a) : ∃ u, l.find? a = some u := by
  obtain ⟨c, hc⟩ := hs.chain ht
  obtain ⟨u, hu, rfl⟩ := mem_ids.1 (hc.ancestor_iff.1 ha)
  exact ⟨u, hc.find?_of_mem (List.mem_cons_of_mem t hu)⟩

/-- No transaction is its own ancestor. -/
theorem Sound.not_ancestor_self : ¬ l.Ancestor id id := by
  obtain ⟨c, hc⟩ := hs.chain ht
  have hnd := hc.nodup
  rw [ids_cons, List.nodup_cons, id_of_find? ht] at hnd
  rw [hc.ancestor_iff]
  exact hnd.1

/-- A record is as deep as it has ancestors. -/
theorem Sound.encard_ancestors : {a | l.Ancestor id a}.encard = t.depth.toNat := by
  obtain ⟨c, hc⟩ := hs.chain ht
  have hnd := hc.nodup
  rw [ids_cons, List.nodup_cons] at hnd
  have hset : {a | l.Ancestor id a} = ((ids c).toFinset : Set TxnId) := by
    ext a
    simp [hc.ancestor_iff]
  rw [hset, Set.encard_coe_eq_coe_finsetCard, List.toFinset_card_of_nodup hnd.2, ids,
    List.length_map, hc.length_eq hs]

end Sound

/-! ## Later ledgers -/

theorem ParentOf.grows (h : l.ParentOf id p) (hg : l.Grows l') : l'.ParentOf id p := by
  obtain ⟨t, ht, hp⟩ := h
  obtain ⟨u, hu, htu⟩ := hg id t ht
  exact ⟨u, hu, (Txn.parent_of_origin htu.origin).trans hp⟩

/-- Ancestors stay ancestors. -/
theorem Ancestor.grows (h : l.Ancestor id a) (hg : l.Grows l') : l'.Ancestor id a := by
  induction h with
  | single hp => exact .single (hp.grows hg)
  | tail _ hp ih => exact .tail ih (hp.grows hg)

/-! ## Walks -/

/-- Where a walk has come to `next`, the nodes of `c` are ahead of it. -/
def Above (l : Ledger) (next : Option TxnId) (c : List Txn) : Prop :=
  match next with
  | none => c = []
  | some id => l.Chain id c

/-- From a node a walk goes on through the rest of its chain. -/
theorem Chain.above (h : l.Chain id (t :: c)) : l.Above t.parent c := by
  cases hp : t.parent with
  | none => exact h.tail_eq_nil hp
  | some p => exact h.tail hp

theorem Above.of_txns {next : Option TxnId} (h : l.Above next c) (he : l'.txns = l.txns) :
    l'.Above next c := by
  cases next with
  | none => exact h
  | some id => exact Chain.of_find? (fun _ _ ht => by rw [find?_congr he, ht]) h

/-- The nodes ahead are none of those that the walk came across. -/
theorem Chain.unseen {seen : List TxnId} (h : l.Chain id (t :: c))
    (hseen : ∀ x ∈ seen, x ∉ ids (t :: c)) : id ∉ seen ∧ ∀ x ∈ id :: seen, x ∉ ids c := by
  have hnd := h.nodup
  rw [ids_cons, List.nodup_cons, h.id_head] at hnd
  refine ⟨fun hid => hseen id hid (by simp [h.id_head]), ?_⟩
  rintro x hx hxc
  rcases List.mem_cons.1 hx with rfl | hx
  · exact hnd.1 hxc
  · exact hseen x hx (List.mem_cons_of_mem _ hxc)

end Ledger

end NestedTxn
