import Mathlib.Data.List.Forall2
import NestedTxn.Proofs.Ledger.Growth
import NestedTxn.Visibility.EffectiveState

/-!
# Chains of ancestors

* `Ledger.Chain l id c`: `c` is the record of `id` followed by those of its ancestors, nearest
  first, up to a root. A chain repeats no node (`Chain.nodup`), and two chains that meet go on
  alike (`Chain.mem_ids_of_mem`).
* `Ledger.Sound l max`: every record is a root, or a dependent child of a recorded transaction, one
  level deeper and at most `max` levels deep; a record is committed iff it says when. Every record
  of a sound ledger has a chain (`Sound.chain`) of at most `max + 1` nodes.
* `Chain.effectiveState_eq`: in a sound ledger a rolled back node decides, else the outermost one.
  `effectiveState_eq_rolledBack`, `_committed`, `_active` say the same for each state.
* `Chain.grows`: a chain has the same nodes in every later ledger.
-/

namespace NestedTxn

namespace Ledger

/-- The record of `id` followed by those of its ancestors, nearest first, up to a root. -/
inductive Chain (l : Ledger) : TxnId → List Txn → Prop
  /-- A root has no ancestors. -/
  | root {id : TxnId} {t : Txn} : l.find? id = some t → t.parent = none → Chain l id [t]
  /-- A child comes before the chain of its parent. -/
  | child {id p : TxnId} {t : Txn} {c : List Txn} :
      l.find? id = some t → t.parent = some p → Chain l p c → Chain l id (t :: c)

/-- The ids of a list of records. -/
def ids (c : List Txn) : List TxnId := c.map (·.id)

@[simp] theorem ids_nil : ids [] = [] := rfl

@[simp] theorem ids_cons (t : Txn) (c : List Txn) : ids (t :: c) = t.id :: ids c := rfl

theorem mem_ids {id : TxnId} {c : List Txn} : id ∈ ids c ↔ ∃ t ∈ c, t.id = id := by
  simp [ids]

theorem exists_mem_of_forall₂ {α β : Type} {R : α → β → Prop} {l : List α} {l' : List β}
    (h : List.Forall₂ R l l') {a : α} (ha : a ∈ l) : ∃ b ∈ l', R a b := by
  induction h with
  | nil => cases ha
  | @cons x y l l' hxy _ ih =>
    rcases List.mem_cons.1 ha with rfl | ha
    · exact ⟨y, by simp, hxy⟩
    · obtain ⟨b, hb, hab⟩ := ih ha
      exact ⟨b, by simp [hb], hab⟩

namespace Chain

variable {l l' : Ledger} {id p : TxnId} {t u : Txn} {c c' : List Txn}

/-- A chain starts with the record of its id. -/
theorem eq_cons (h : l.Chain id c) : ∃ t rest, c = t :: rest ∧ l.find? id = some t := by
  cases h with
  | root ht _ => exact ⟨_, [], rfl, ht⟩
  | child ht _ _ => exact ⟨_, _, rfl, ht⟩

theorem find?_head (h : l.Chain id (t :: c)) : l.find? id = some t := by
  cases h <;> assumption

theorem id_head (h : l.Chain id (t :: c)) : t.id = id := id_of_find? h.find?_head

/-- The rest of a chain is the chain of the parent. -/
theorem tail (h : l.Chain id (t :: c)) (hp : t.parent = some p) : l.Chain p c := by
  cases h with
  | root _ hn => rw [hn] at hp; cases hp
  | child _ hq hc => rw [hq] at hp; cases hp; exact hc

/-- A node of a chain is the child of the next one. -/
theorem parent_eq (h : l.Chain id (t :: u :: c)) : t.parent = some u.id := by
  cases h with
  | child _ hp hc => rw [hp, hc.id_head]

theorem parent_eq_none (h : l.Chain id [t]) : t.parent = none := by
  cases h with
  | root _ hn => exact hn
  | child _ _ hc =>
    obtain ⟨_, _, h, _⟩ := hc.eq_cons
    cases h

theorem tail_eq_nil (h : l.Chain id (t :: c)) (hp : t.parent = none) : c = [] := by
  cases h with
  | root _ _ => rfl
  | child _ hq _ => rw [hq] at hp; cases hp

theorem unique (h : l.Chain id c) (h' : l.Chain id c') : c = c' := by
  induction h generalizing c' with
  | root ht hn =>
    obtain ⟨t', rest, rfl, ht'⟩ := h'.eq_cons
    rw [ht] at ht'
    cases ht'
    rw [h'.tail_eq_nil hn]
  | child ht hp _ ih =>
    obtain ⟨t', rest, rfl, ht'⟩ := h'.eq_cons
    rw [ht] at ht'
    cases ht'
    rw [ih (h'.tail hp)]

/-- Every node of a chain starts a part of it that is its own chain. -/
theorem suffix (h : l.Chain id c) (hu : u ∈ c) :
    ∃ pre rest, c = pre ++ u :: rest ∧ l.Chain u.id (u :: rest) := by
  induction h with
  | root ht hn =>
    obtain rfl := List.mem_singleton.1 hu
    exact ⟨[], [], rfl, .root (by rw [id_of_find? ht, ht]) hn⟩
  | @child id p t c ht hp hc ih =>
    rcases List.mem_cons.1 hu with rfl | hu
    · exact ⟨[], c, rfl, .child (by rw [id_of_find? ht, ht]) hp hc⟩
    · obtain ⟨pre, rest, rfl, hr⟩ := ih hu
      exact ⟨t :: pre, rest, rfl, hr⟩

/-- The nodes of a chain are records. -/
theorem find?_of_mem (h : l.Chain id c) (hu : u ∈ c) : l.find? u.id = some u := by
  obtain ⟨_, _, _, hr⟩ := h.suffix hu
  exact hr.find?_head

/-- A chain repeats no node: the part of it from a repetition on would be as long as the part
from the first occurrence on. -/
theorem nodup (h : l.Chain id c) : (ids c).Nodup := by
  induction h with
  | root _ _ => simp
  | @child id p t c ht hp hc ih =>
    refine List.nodup_cons.2 ⟨fun hm => ?_, ih⟩
    obtain ⟨u, hu, hid⟩ := mem_ids.1 hm
    obtain ⟨pre, rest, rfl, hr⟩ := hc.suffix hu
    have hfull : l.Chain u.id (t :: (pre ++ u :: rest)) :=
      .child (by simp only [hid, id_of_find? ht, ht]) hp hc
    have hlen := congrArg List.length (hr.unique hfull)
    simp at hlen
    omega

/-- Two chains that meet in a node share all from there on. -/
theorem mem_ids_of_mem (h : l.Chain id c) (h' : l.Chain p c') {x : TxnId} (hx : x ∈ ids c)
    (hx' : x ∈ ids c') : c.getLast? = c'.getLast? := by
  obtain ⟨t, ht, rfl⟩ := mem_ids.1 hx
  obtain ⟨u, hu, hid⟩ := mem_ids.1 hx'
  obtain ⟨pre, rest, rfl, hr⟩ := h.suffix ht
  obtain ⟨pre', rest', rfl, hr'⟩ := h'.suffix hu
  rw [hid] at hr'
  rw [List.getLast?_append_of_ne_nil _ (by simp), List.getLast?_append_of_ne_nil _ (by simp),
    hr.unique hr']

/-- The outermost node of a chain is the one without a parent. -/
theorem getLast?_eq_some (h : l.Chain id c) {r : Txn} :
    c.getLast? = some r ↔ r ∈ c ∧ r.parent = none := by
  induction h with
  | @root id t _ hn =>
    simp only [List.getLast?_singleton, Option.some.injEq, List.mem_singleton]
    exact ⟨fun h => ⟨h.symm, h ▸ hn⟩, fun h => h.1.symm⟩
  | @child id p t c _ hp hc ih =>
    obtain ⟨u, rest, rfl, _⟩ := hc.eq_cons
    rw [List.getLast?_cons_cons, ih, List.mem_cons (b := t)]
    refine ⟨fun h => ⟨.inr h.1, h.2⟩, fun h => ⟨h.1.resolve_left fun e => ?_, h.2⟩⟩
    rw [e, hp] at h
    cases h.2

theorem of_find? (hf : ∀ t ∈ c, l.find? t.id = some t → l'.find? t.id = some t)
    (h : l.Chain id c) : l'.Chain id c := by
  induction h with
  | @root id t ht hn =>
    obtain rfl := id_of_find? ht
    exact .root (hf t (by simp) ht) hn
  | @child id p t c ht hp _ ih =>
    obtain rfl := id_of_find? ht
    exact .child (hf t (by simp) ht) hp (ih fun u hu => hf u (by simp [hu]))

/-- A chain has the same nodes in every later ledger. -/
theorem grows (h : l.Chain id c) (hg : l.Grows l') :
    ∃ c', l'.Chain id c' ∧ List.Forall₂ Txn.Becomes c c' := by
  induction h with
  | root ht hn =>
    obtain ⟨u, hu, htu⟩ := hg _ _ ht
    exact ⟨[u], .root hu (by rw [Txn.parent_of_origin htu.origin, hn]), .cons htu .nil⟩
  | child ht hp _ ih =>
    obtain ⟨u, hu, htu⟩ := hg _ _ ht
    obtain ⟨c', hc', hcc'⟩ := ih
    exact ⟨u :: c', .child hu (by rw [Txn.parent_of_origin htu.origin, hp]) hc', .cons htu hcc'⟩

/-- The ids of a chain never change. -/
theorem ids_later (h : l.Chain id c) (h' : l'.Chain id c') (hg : l.Grows l') : ids c' = ids c := by
  obtain ⟨c₁, hc₁, hcc⟩ := h.grows hg
  obtain rfl := h'.unique hc₁
  clear h h' hc₁
  induction hcc with
  | nil => rfl
  | cons htu _ ih => rw [ids_cons, ids_cons, ih, Txn.id_of_origin htu.origin]

/-- Every node of a chain is what a node of the chain before has become. -/
theorem mem_before (h : l.Chain id c) (h' : l'.Chain id c') (hg : l.Grows l') (hu : u ∈ c') :
    ∃ t ∈ c, t.Becomes u := by
  obtain ⟨c₁, hc₁, hcc⟩ := h.grows hg
  obtain rfl := h'.unique hc₁
  exact exists_mem_of_forall₂ hcc.flip hu

/-- Every node of a chain becomes a node of the later chain. -/
theorem mem_later (h : l.Chain id c) (h' : l'.Chain id c') (hg : l.Grows l') (ht : t ∈ c) :
    ∃ u ∈ c', t.Becomes u := by
  obtain ⟨c₁, hc₁, hcc⟩ := h.grows hg
  obtain rfl := h'.unique hc₁
  exact exists_mem_of_forall₂ hcc ht

/-- The outermost node of a chain becomes that of the later chain. -/
theorem getLast?_later (h : l.Chain id c) (h' : l'.Chain id c') (hg : l.Grows l') {r : Txn}
    (hr : c.getLast? = some r) : ∃ r', c'.getLast? = some r' ∧ r.Becomes r' := by
  obtain ⟨hm, hp⟩ := h.getLast?_eq_some.1 hr
  obtain ⟨u, hu, hru⟩ := h.mem_later h' hg hm
  exact ⟨u, h'.getLast?_eq_some.2 ⟨hu, by rw [Txn.parent_of_origin hru.origin, hp]⟩, hru⟩

end Chain

end Ledger

namespace Txn

variable {t : Txn} {ts : Timestamp}

theorem ownState_eq_active : t.ownState = .ok .active ↔ t.state = .active := by
  unfold ownState
  split <;> simp_all

theorem ownState_eq_rolledBack : t.ownState = .ok .rolledBack ↔ t.state = .rolledBack := by
  unfold ownState
  split <;> simp_all

theorem ownState_eq_committed :
    t.ownState = .ok (.committed ts) ↔ t.state = .committed ∧ t.commitTimestamp = some ts := by
  unfold ownState
  split <;> simp_all

end Txn

namespace Ledger

/-! ## Sound ledgers -/

/-- Where a record may stand in a ledger whose chains have at most `max` ancestors. -/
structure Placed (l : Ledger) (max : Nat) (t : Txn) : Prop where
  /-- A root lies at depth 0. -/
  root : t.parent = none → t.depth = 0
  /-- A child is dependent and lies one level deeper than its parent. -/
  child : ∀ p, t.parent = some p →
    t.dependent = true ∧ ∃ u, l.find? p = some u ∧ t.depth.toNat = u.depth.toNat + 1
  /-- No record has too many ancestors. -/
  shallow : t.depth.toNat ≤ max
  /-- A record is committed iff it says when. -/
  stamped : t.state = .committed ↔ t.commitTimestamp.isSome

/-- Every record stands where it may. -/
def Sound (l : Ledger) (max : Nat) : Prop :=
  ∀ id t, l.find? id = some t → l.Placed max t

/-- A record keeps its place as the ledger grows. -/
theorem Placed.grows {l l' : Ledger} {max : Nat} {t u : Txn} (h : l.Placed max t)
    (hg : l.Grows l') (hu : u.origin = t.origin)
    (hs : u.state = .committed ↔ u.commitTimestamp.isSome) : l'.Placed max u where
  root hn := by
    rw [Txn.depth_of_origin hu, h.root (by rw [← Txn.parent_of_origin hu, hn])]
  child p hp := by
    obtain ⟨hd, v, hv, hdepth⟩ := h.child p (by rw [← Txn.parent_of_origin hu, hp])
    obtain ⟨w, hw, hvw⟩ := hg _ _ hv
    refine ⟨by rw [Txn.dependent_of_origin hu, hd], w, hw, ?_⟩
    rw [Txn.depth_of_origin hu, Txn.depth_of_origin hvw.origin, hdepth]
  shallow := by rw [Txn.depth_of_origin hu]; exact h.shallow
  stamped := hs

theorem Sound.insert {l : Ledger} {max : Nat} {t : Txn} (h : l.Sound max)
    (hf : l.find? t.id = none) (ht : l.Placed max t) : (l.insert t).Sound max := by
  have hg := grows_insert hf
  intro id u hu
  rw [find?_insert] at hu
  split at hu
  · cases hu
    exact ht.grows hg rfl ht.stamped
  · exact (h id u hu).grows hg rfl (h id u hu).stamped

theorem Sound.replace {l : Ledger} {max : Nat} {t u : Txn} (h : l.Sound max)
    (hf : l.find? t.id = some t) (htu : t.Becomes u)
    (hs : u.state = .committed ↔ u.commitTimestamp.isSome) : (l.replace u).Sound max := by
  have hg := grows_replace hf htu
  have hid : u.id = t.id := Txn.id_of_origin htu.origin
  intro id v hv
  rw [find?_replace] at hv
  split at hv
  · obtain ⟨w, hw, rfl⟩ := Option.map_eq_some_iff.1 hv
    exact (h _ _ hf).grows hg htu.origin hs
  · exact (h id v hv).grows hg rfl (h id v hv).stamped

theorem Sound.of_txns {l l' : Ledger} {max : Nat} (h : l.Sound max) (he : l'.txns = l.txns) :
    l'.Sound max := by
  intro id t ht
  rw [find?_congr he] at ht
  exact (h id t ht).grows (.of_txns he) rfl (h id t ht).stamped

theorem sound_nil {l : Ledger} {max : Nat} (h : l.txns = []) : l.Sound max := by
  intro id t ht
  simp [find?, h] at ht

section Sound

variable {l : Ledger} {max : Nat} {id : TxnId} {t : Txn} {c : List Txn}

/-- Every record of a sound ledger has a chain. -/
theorem Sound.chain (h : l.Sound max) (ht : l.find? id = some t) : ∃ c, l.Chain id (t :: c) := by
  induction hd : t.depth.toNat generalizing id t with
  | zero =>
    cases hp : t.parent with
    | none => exact ⟨[], .root ht hp⟩
    | some p =>
      obtain ⟨_, u, _, hdepth⟩ := (h id t ht).child p hp
      omega
  | succ n ih =>
    cases hp : t.parent with
    | none => exact ⟨[], .root ht hp⟩
    | some p =>
      obtain ⟨_, u, hu, hdepth⟩ := (h id t ht).child p hp
      obtain ⟨c, hc⟩ := ih hu (by omega)
      exact ⟨u :: c, .child ht hp hc⟩

/-- A chain has as many nodes below its head as the depth of the head says. -/
theorem Chain.length_eq (h : l.Chain id (t :: c)) (hs : l.Sound max) :
    c.length = t.depth.toNat := by
  induction c generalizing id t with
  | nil =>
    cases h with
    | root ht hn => rw [(hs id t ht).root hn]; rfl
    | child _ _ hc => obtain ⟨_, _, h, _⟩ := hc.eq_cons; cases h
  | cons u c ih =>
    cases h with
    | child ht hp hc =>
      obtain ⟨_, v, hv, hdepth⟩ := (hs id t ht).child _ hp
      rw [hc.find?_head] at hv
      cases hv
      rw [List.length_cons, ih hc, hdepth]

theorem Chain.length_le (h : l.Chain id (t :: c)) (hs : l.Sound max) : c.length ≤ max := by
  rw [h.length_eq hs]
  exact (hs id t h.find?_head).shallow

/-- A rolled back node on the chain decides, else the outermost node does. -/
theorem Chain.effectiveState_eq (h : l.Chain id c) (hs : l.Sound max) :
    ∃ r, c.getLast? = some r ∧ effectiveState c =
      if ∃ u ∈ c, u.state = .rolledBack then .ok .rolledBack else r.ownState := by
  induction h with
  | @root id t ht hn =>
    have hr : t.standsAlone = true := by simp [Txn.standsAlone, Txn.isRoot, hn]
    exact ⟨t, rfl, by simp [effectiveState, hr]⟩
  | @child id p t c ht hp hc ih =>
    obtain ⟨r, hr, he⟩ := ih
    have hd := ((hs id t ht).child p hp).1
    have ha : t.standsAlone = false := by simp [Txn.standsAlone, Txn.isRoot, hp, hd]
    refine ⟨r, by rw [List.getLast?_cons, hr]; rfl, ?_⟩
    by_cases hb : t.state = .rolledBack <;> simp [effectiveState, ha, hb, he]

theorem Chain.effectiveState_eq_rolledBack (h : l.Chain id c) (hs : l.Sound max) :
    effectiveState c = .ok .rolledBack ↔ ∃ u ∈ c, u.state = .rolledBack := by
  obtain ⟨r, hr, he⟩ := h.effectiveState_eq hs
  rw [he]
  split
  · next hb => exact ⟨fun _ => hb, fun _ => rfl⟩
  · refine ⟨fun ho => ⟨r, List.mem_of_getLast? hr, ?_⟩, fun hb => absurd hb ‹_›⟩
    exact Txn.ownState_eq_rolledBack.1 ho

theorem Chain.effectiveState_eq_committed (h : l.Chain id c) (hs : l.Sound max) {ts : Timestamp} :
    effectiveState c = .ok (.committed ts) ↔ (∀ u ∈ c, u.state ≠ .rolledBack) ∧
      ∃ r, c.getLast? = some r ∧ r.state = .committed ∧ r.commitTimestamp = some ts := by
  obtain ⟨r, hr, he⟩ := h.effectiveState_eq hs
  rw [he]
  split
  · next hb =>
    obtain ⟨u, hu, hb⟩ := hb
    exact ⟨nofun, fun h => absurd hb (h.1 u hu)⟩
  · next hb =>
    rw [Txn.ownState_eq_committed]
    refine ⟨fun ho => ⟨fun u hu h => hb ⟨u, hu, h⟩, r, hr, ho⟩, fun h => ?_⟩
    obtain ⟨_, r', hr', ho⟩ := h
    rw [hr] at hr'
    cases hr'
    exact ho

theorem Chain.effectiveState_eq_active (h : l.Chain id c) (hs : l.Sound max) :
    effectiveState c = .ok .active ↔ (∀ u ∈ c, u.state ≠ .rolledBack) ∧
      ∃ r, c.getLast? = some r ∧ r.state = .active := by
  obtain ⟨r, hr, he⟩ := h.effectiveState_eq hs
  rw [he]
  split
  · next hb =>
    obtain ⟨u, hu, hb⟩ := hb
    exact ⟨nofun, fun h => absurd hb (h.1 u hu)⟩
  · next hb =>
    rw [Txn.ownState_eq_active]
    refine ⟨fun ho => ⟨fun u hu h => hb ⟨u, hu, h⟩, r, hr, ho⟩, fun h => ?_⟩
    obtain ⟨_, r', hr', ho⟩ := h
    rw [hr] at hr'
    cases hr'
    exact ho

/-- In a sound ledger every record has an effective state. -/
theorem Chain.effectiveState_ok (h : l.Chain id c) (hs : l.Sound max) :
    ∃ e, effectiveState c = .ok e := by
  obtain ⟨r, hr, he⟩ := h.effectiveState_eq hs
  rw [he]
  split
  · exact ⟨_, rfl⟩
  · have hstamp := (hs _ r (h.find?_of_mem (List.mem_of_getLast? hr))).stamped
    unfold Txn.ownState
    split
    · exact ⟨_, rfl⟩
    · exact ⟨_, rfl⟩
    · exact ⟨_, rfl⟩
    · next hst hts => simp [hst, hts] at hstamp

end Sound

end Ledger

end NestedTxn
