import NestedTxn.Proofs.Session.Seen
import NestedTxn.Proofs.UndoLog.Basic

/-!
# Versions and writes

* `Trace P R vs ws`: the list `ws` is related by `R` to what is left of `vs` when some elements with
  `P` are skipped. `Trace.mono`, `filter`, `map`: how it follows changes of either side.
* `UndoLog.Pending st ms k serial`: the chain `k` of a version belongs to an uncommitted write of
  the session whose stack has the ids `st` and the marks `ms`. The nodes of the chain that are still
  on the stack are those of the entries pushed before the write; all others are committed. One lemma
  for each change of the stack: `Pending.push`, `commitTop`, `undoTop`, `published`.
* `UndoLog.Remains`: the version belongs to the write.
-/

namespace NestedTxn

/-! ## Traces -/

/-- Both lists in step, but for elements with `P` that the second one lacks. -/
inductive Trace {α β : Type} (P : α → Prop) (R : α → β → Prop) : List α → List β → Prop
  | nil : Trace P R [] []
  | skip {a : α} {as : List α} {bs : List β} : P a → Trace P R as bs → Trace P R (a :: as) bs
  | keep {a : α} {b : β} {as : List α} {bs : List β} :
      R a b → Trace P R as bs → Trace P R (a :: as) (b :: bs)

namespace Trace

variable {α β : Type} {P P' : α → Prop} {R R' : α → β → Prop} {as : List α} {bs : List β}

theorem mono (h : Trace P R as bs) (hp : ∀ a, P a → P' a) (hr : ∀ a, ∀ b ∈ bs, R a b → R' a b) :
    Trace P' R' as bs := by
  induction h with
  | nil => exact .nil
  | skip ha _ ih => exact .skip (hp _ ha) (ih hr)
  | keep hab _ ih =>
    exact .keep (hr _ _ (by simp) hab) (ih fun a b hb => hr a b (List.mem_cons_of_mem _ hb))

/-- Elements may leave the second list if theirs may be skipped from now on. -/
theorem filter (h : Trace P R as bs) (hp : ∀ a, P a → P' a) (q : β → Bool)
    (hr : ∀ a b, R a b → if q b then R' a b else P' a) : Trace P' R' as (bs.filter q) := by
  induction h with
  | nil => exact .nil
  | skip ha _ ih => exact .skip (hp _ ha) ih
  | @keep a b as bs hab _ ih =>
    have hb := hr a b hab
    rw [List.filter_cons]
    split
    · next hq =>
      rw [if_pos hq] at hb
      exact .keep hb ih
    · next hq =>
      rw [if_neg hq] at hb
      exact .skip hb ih

theorem map (h : Trace P R as bs) (hp : ∀ a, P a → P' a) (f : β → β)
    (hr : ∀ a b, R a b → R' a (f b)) : Trace P' R' as (bs.map f) := by
  induction h with
  | nil => exact .nil
  | skip ha _ ih => exact .skip (hp _ ha) ih
  | keep hab _ ih => exact .keep (hr _ _ hab) ih

theorem exists_of_mem (h : Trace P R as bs) {b : β} (hb : b ∈ bs) : ∃ a, R a b := by
  induction h with
  | nil => cases hb
  | skip _ _ ih => exact ih hb
  | keep hab _ ih =>
    rcases List.mem_cons.1 hb with rfl | hb
    · exact ⟨_, hab⟩
    · exact ih hb

/-- The first list may be replaced by one with the same images. -/
theorem of_map_eq {γ : Type} (h : Trace P R as bs) {f : α → γ} {as' : List α}
    (hm : as.map f = as'.map f) (hp : ∀ a a', f a = f a' → P a → P' a')
    (hr : ∀ a a' b, f a = f a' → R a b → R' a' b) : Trace P' R' as' bs := by
  induction h generalizing as' with
  | nil =>
    rw [List.map_eq_nil_iff.1 hm.symm]
    exact .nil
  | skip ha _ ih =>
    obtain ⟨a', as'', rfl, hf, hm⟩ := List.map_eq_cons_iff.1 hm.symm
    exact .skip (hp _ _ hf.symm ha) (ih hm.symm)
  | keep hab _ ih =>
    obtain ⟨a', as'', rfl, hf, hm⟩ := List.map_eq_cons_iff.1 hm.symm
    exact .keep (hr _ _ _ hf.symm hab) (ih hm.symm)

/-- What is found in one list is found in the other. -/
theorem find?_eq {γ : Type} (h : Trace P R as bs) {p : α → Bool} {q : β → Bool}
    {f : α → Option γ} {g : β → Option γ} (hp : ∀ a, P a → p a = false)
    (hr : ∀ a b, R a b → p a = q b ∧ f a = g b) : (as.find? p).bind f = (bs.find? q).bind g := by
  induction h with
  | nil => rfl
  | skip ha _ ih => rw [List.find?_cons, hp _ ha, ih]
  | @keep a b _ _ hab _ ih =>
    obtain ⟨hpq, hfg⟩ := hr a b hab
    rw [List.find?_cons, List.find?_cons, hpq]
    cases q b with
    | true => exact hfg
    | false => exact ih

end Trace

/-! ## Chains after a change -/

namespace Txn

/-- The record `t` after the record of `u` was finished. -/
def afterFinish (u : Txn) (o : Outcome) (t : Txn) : Txn := if t.id = u.id then u.finish o else t

theorem afterFinish_id (u : Txn) (o : Outcome) (t : Txn) : (u.afterFinish o t).id = t.id := by
  rw [afterFinish]
  split
  · next h => rw [finish_id, h]
  · rfl

theorem parent_finish (u : Txn) (o : Outcome) : (u.finish o).parent = u.parent := by
  cases o <;> rfl

end Txn

namespace Ledger

variable {l l' : Ledger} {id : TxnId} {k : List Txn}

/-- A chain whose records stay the same up to destinations does so too. -/
theorem Chain.kept (h : l.Chain id k)
    (hk : ∀ t ∈ k, ∃ u, l'.find? t.id = some u ∧ u.bare = t.bare) :
    ∃ k', l'.Chain id k' ∧ k'.map Txn.bare = k.map Txn.bare := by
  induction h with
  | @root id t ht hn =>
    obtain ⟨u, hu, hb⟩ := hk t (by simp)
    rw [id_of_find? ht] at hu
    exact ⟨[u], .root hu (by rw [Txn.parent_of_origin (Txn.origin_of_bare hb), hn]), by simp [hb]⟩
  | @child id p t k ht hp _ ih =>
    obtain ⟨u, hu, hb⟩ := hk t (by simp)
    obtain ⟨k', hk', hbs⟩ := ih fun v hv => hk v (by simp [hv])
    rw [id_of_find? ht] at hu
    exact ⟨u :: k', .child hu (by rw [Txn.parent_of_origin (Txn.origin_of_bare hb), hp]) hk',
      by simp [hb, hbs]⟩

/-- A chain after the record of `u` was finished. -/
theorem Chain.finished {u : Txn} {o : Outcome} (h : l.Chain id k) (hu : l.find? u.id = some u)
    (hl : ∀ id, l'.find? id = (l.replace (u.finish o)).find? id) :
    l'.Chain id (k.map (u.afterFinish o)) := by
  have hf : ∀ {id : TxnId} {t : Txn}, l.find? id = some t →
      l'.find? id = some (u.afterFinish o t) ∧ (u.afterFinish o t).parent = t.parent := by
    intro id t ht
    have hid := id_of_find? ht
    rw [hl, find?_replace, Txn.finish_id, Txn.afterFinish, hid]
    by_cases hi : u.id = id
    · rw [if_pos hi, if_pos hi.symm, ht, Option.map_some, Txn.parent_finish]
      rw [hi, ht] at hu
      cases hu
      exact ⟨rfl, rfl⟩
    · rw [if_neg hi, if_neg (Ne.symm hi)]
      exact ⟨ht, rfl⟩
  induction h with
  | root ht hn =>
    obtain ⟨hf₁, hf₂⟩ := hf ht
    exact .root hf₁ (hf₂.trans hn)
  | child ht hp _ ih =>
    obtain ⟨hf₁, hf₂⟩ := hf ht
    exact .child hf₁ (hf₂.trans hp) ih

theorem ids_afterFinish (u : Txn) (o : Outcome) (k : List Txn) :
    ids (k.map (u.afterFinish o)) = ids k := by
  simp [ids, Function.comp_def, Txn.afterFinish_id]

theorem ids_congr {k' : List Txn} (h : k'.map Txn.bare = k.map Txn.bare) : ids k' = ids k := by
  have hi := congrArg (List.map (·.id)) h
  simpa [ids, Function.comp_def] using hi

end Ledger

/-! ## Uncommitted writes -/

namespace UndoLog

open Ledger

/-- The chain `k` belongs to a write that is uncommitted, in a session whose stack has the ids `st`
and the marks `ms`. -/
structure Pending (st : List TxnId) (ms : List Mark) (k : List Txn) (serial : Nat) : Prop where
  live : ∀ t ∈ k, t.state ≠ .rolledBack
  /-- What is off the stack was committed. -/
  settled : ∀ t ∈ k, t.id ∈ st ∨ t.state = .committed
  bottom : ∃ id, st.getLast? = some id ∧ id ∈ ids k
  /-- On the chain are the entries that were there when the write was made. -/
  since : List.Forall₂ (fun id m => id ∈ ids k ↔ m.since ≤ serial) st ms

namespace Pending

variable {st : List TxnId} {ms : List Mark} {k k' : List Txn} {serial : Nat} {m : Mark} {u : Txn}
  {id : TxnId} {l : Ledger} {max : Nat}

/-- Destinations do not matter. -/
theorem congr (h : Pending st ms k serial) (hb : k'.map Txn.bare = k.map Txn.bare) :
    Pending st ms k' serial := by
  have hmem : ∀ t ∈ k', ∃ t₀ ∈ k, t₀.bare = t.bare := fun t ht =>
    List.mem_map.1 (hb ▸ List.mem_map_of_mem ht)
  refine ⟨fun t ht => ?_, fun t ht => ?_, by rw [ids_congr hb]; exact h.bottom,
    by rw [ids_congr hb]; exact h.since⟩
  · obtain ⟨t₀, ht₀, hbt⟩ := hmem t ht
    rw [← Txn.state_of_bare hbt]
    exact h.live t₀ ht₀
  · obtain ⟨t₀, ht₀, hbt⟩ := hmem t ht
    rw [← Txn.state_of_bare hbt, ← Txn.id_of_origin (Txn.origin_of_bare hbt)]
    exact h.settled t₀ ht₀

/-- The bottom entry was pushed before the write was made. -/
theorem exists_bottom (h : Pending st ms k serial) :
    ∃ m, ms.getLast? = some m ∧ m.since ≤ serial := by
  obtain ⟨-, -, ⟨b, hb, hbk⟩, hsince⟩ := h
  induction hsince with
  | nil => cases hb
  | @cons id m st ms hm hrest ih =>
    cases hrest with
    | nil =>
      cases hb
      exact ⟨m, rfl, hm.1 hbk⟩
    | cons hm' hrest' =>
      rw [List.getLast?_cons_cons] at hb
      obtain ⟨m', hm', hle⟩ := ih hb
      exact ⟨m', by rw [List.getLast?_cons_cons, hm'], hle⟩

/-- An entry that is pushed later is not on the chain. -/
theorem push (h : Pending st ms k serial) (hid : id ∉ ids k) (hm : serial < m.since) :
    Pending (id :: st) (m :: ms) k serial := by
  obtain ⟨b, hb, hbk⟩ := h.bottom
  refine ⟨h.live, fun t ht => (h.settled t ht).imp_left (List.mem_cons_of_mem _), ⟨b, ?_, hbk⟩,
    .cons ⟨fun hk => absurd hk hid, fun hle => by omega⟩ h.since⟩
  rw [List.getLast?_cons, hb]
  rfl

/-- The top entry is committed and leaves the stack. -/
theorem commitTop (h : Pending (u.id :: st) (m :: ms) k serial) (hst : st ≠ []) (ts : Timestamp)
    (g : Option Timestamp) : Pending st ms (k.map (u.afterFinish (.committed ts g))) serial := by
  obtain ⟨b, hb, hbk⟩ := h.bottom
  refine ⟨fun t ht => ?_, fun t ht => ?_, ⟨b, ?_, ?_⟩, ?_⟩
  · obtain ⟨t₀, ht₀, rfl⟩ := List.mem_map.1 ht
    rw [Txn.afterFinish]
    split
    · exact nofun
    · exact h.live t₀ ht₀
  · obtain ⟨t₀, ht₀, rfl⟩ := List.mem_map.1 ht
    rw [Txn.afterFinish]
    split
    · exact .inr rfl
    · next hne =>
      exact (h.settled t₀ ht₀).imp_left fun hm => (List.mem_cons.1 hm).resolve_left hne
  · rw [List.getLast?_cons] at hb
    rw [← hb, List.getLast?_eq_some_getLast hst]
    rfl
  · rwa [ids_afterFinish]
  · rw [ids_afterFinish]
    exact (List.forall₂_cons.1 h.since).2

/-- The top entry is rolled back, and the write was made before it was pushed. -/
theorem undoTop (h : Pending (u.id :: st) (m :: ms) k serial) (hm : serial < m.since)
    (o : Outcome) : Pending st ms (k.map (u.afterFinish o)) serial := by
  obtain ⟨hum, hrest⟩ := List.forall₂_cons.1 h.since
  have hnot : u.id ∉ ids k := fun hu => by
    have := hum.1 hu
    omega
  have hsame : k.map (u.afterFinish o) = k := by
    refine (List.map_congr_left fun t ht => ?_).trans (List.map_id k)
    rw [Txn.afterFinish, if_neg fun hid => hnot (mem_ids.2 ⟨t, ht, hid⟩)]
    rfl
  obtain ⟨b, hb, hbk⟩ := h.bottom
  rw [hsame]
  refine ⟨h.live, fun t ht => (h.settled t ht).imp_left fun hmem => ?_, ⟨b, ?_, hbk⟩, hrest⟩
  · exact (List.mem_cons.1 hmem).resolve_left fun hid => hnot (mem_ids.2 ⟨t, ht, hid⟩)
  · rw [List.getLast?_cons] at hb
    cases hst : st.getLast? with
    | none =>
      rw [hst] at hb
      cases hb
      exact absurd hbk hnot
    | some b' =>
      rw [hst] at hb
      exact hb

/-- The top entry is rolled back, and the write was made since it was pushed. -/
theorem undone (h : Pending (u.id :: st) (m :: ms) k serial) (hm : m.since ≤ serial) :
    ∃ t ∈ k.map (u.afterFinish .rolledBack), t.state = .rolledBack := by
  obtain ⟨t, ht, hid⟩ := mem_ids.1 ((List.forall₂_cons.1 h.since).1.2 hm)
  exact ⟨_, List.mem_map_of_mem ht, by rw [Txn.afterFinish, if_pos hid]; rfl⟩

/-- The bottom entry is committed. -/
theorem published (h : Pending st ms k serial) (hb : st.getLast? = some u.id)
    (hu : u.parent = none) {ts : Timestamp} {g : Option Timestamp} (hs : l.Sound max)
    (hk : l.Chain id (k.map (u.afterFinish (.committed ts g)))) :
    effectiveState (k.map (u.afterFinish (.committed ts g))) = .ok (.committed ts) := by
  rw [hk.effectiveState_eq_committed hs]
  refine ⟨fun t ht => ?_, u.finish (.committed ts g), ?_, rfl, rfl⟩
  · obtain ⟨t₀, ht₀, rfl⟩ := List.mem_map.1 ht
    rw [Txn.afterFinish]
    split
    · exact nofun
    · exact h.live t₀ ht₀
  · obtain ⟨b, hb', hbk⟩ := h.bottom
    rw [hb] at hb'
    cases hb'
    obtain ⟨t, ht, hid⟩ := mem_ids.1 hbk
    refine hk.getLast?_eq_some.2 ⟨?_, hu⟩
    exact List.mem_map.2 ⟨t, ht, by rw [Txn.afterFinish, if_pos hid]⟩

end Pending

end UndoLog

end NestedTxn
