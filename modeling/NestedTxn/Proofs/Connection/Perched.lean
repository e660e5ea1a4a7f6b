import NestedTxn.Proofs.Connection.Seated
import NestedTxn.Proofs.Connection.Shifts

/-!
# Stacks on any transaction

* `Connection.Perched c l`: the entries of a stack are active records, and all above the bottom one
  are children. The bottom entry may be a root, as for a seated connection (`Seated.perched`), or
  hang below a transaction of another connection.
* `Shifts.perched`: whatever a connection does, it stays perched in a sound ledger.
* `Ledger.Uniform`: all transactions read at one isolation level. `Changes.uniform`: a connection
  keeps that, because what it begins is a root at the default level or takes that of its parent.
-/

namespace NestedTxn

namespace Connection

open Ledger Services

/-- The entries of the stack are active records, and all above the bottom one are children. -/
structure Perched (c : Connection) (l : Ledger) : Prop where
  /-- Only an active connection has entries. -/
  idle : c.phase ≠ .active → c.stack = []
  active : ∀ e ∈ c.stack, e.txn.state = .active
  found : ∀ e ∈ c.stack, ∃ t, l.find? e.txn.id = some t ∧ t.bare = e.txn.bare
  nodup : c.ids.Nodup
  child : ∀ e ∈ c.stack.dropLast, e.txn.parent ≠ none

variable {config : Config} {max : Nat} {c c' : Connection} {l l' : Ledger} {s s' : Services}
  {p p' : Connection × Services} {e : Savepoint} {st rest : List Savepoint} {t : Txn}

theorem Seated.perched (h : c.Seated l) : c.Perched l where
  idle := h.idle
  active _ := h.stacked.state
  found _ := h.stacked.find?
  nodup := h.stacked.nodup
  child := by
    have hst := h.stacked
    generalize c.stack = st at hst
    induction hst with
    | nil => exact fun _ he => absurd he List.not_mem_nil
    | @cons e rest _ _ _ _ hp _ ih =>
      cases rest with
      | nil => exact fun _ he => absurd he List.not_mem_nil
      | cons d rest =>
        intro e' he'
        rcases List.mem_cons.1 he' with rfl | he'
        · rw [hp]
          nofun
        · exact ih e' he'

/-- Destinations do not matter. -/
theorem ids_of_bare (hb : st.map Savepoint.bare = c.stack.map Savepoint.bare) :
    ({ c with stack := st } : Connection).ids = c.ids := by
  have hi := congrArg (List.map (·.txn.id)) hb
  simp only [List.map_map, Function.comp_def, Savepoint.bare, Txn.bare_id] at hi
  exact hi

/-- What an elevation makes of recorded entries differs in destinations only. -/
theorem bare_of_kept {st₀ : List Savepoint}
    (hf : ∀ e ∈ st₀, ∃ t, s.ledger.find? e.txn.id = some t ∧ t.bare = e.txn.bare)
    (hr : s.Regrants s') (hk : List.Forall₂ (Savepoint.Kept s'.ledger) st₀ st) :
    st.map Savepoint.bare = st₀.map Savepoint.bare := by
  induction hk with
  | nil => rfl
  | @cons e e' rest rest' hee _ ih =>
    rw [List.map_cons, List.map_cons, ih fun d hd => hf d (List.mem_cons_of_mem _ hd)]
    congr 1
    have hb : e'.txn.bare = e.txn.bare := by
      rcases hee.txn with he | ⟨u, hu, hub⟩
      · rw [he]
      · obtain ⟨t, ht, htb⟩ := hf e (List.mem_cons_self ..)
        obtain ⟨v, hv, hvt⟩ := hr.find? ht
        rw [hu] at hv
        cases hv
        rw [← hub, hvt, htb]
    simp only [Savepoint.bare, hee.name, hb]

namespace Perched

/-- The record of an entry is active. -/
theorem record_active (h : c.Perched l) (he : e ∈ c.stack) (ht : l.find? e.txn.id = some t) :
    t.state = .active := by
  obtain ⟨u, hu, hb⟩ := h.found e he
  rw [ht] at hu
  cases hu
  rw [Txn.state_of_bare hb, h.active e he]

/-- Entries are recorded. -/
theorem recorded (h : c.Perched l) {id : TxnId} (hid : id ∈ c.ids) : l.find? id ≠ none := by
  obtain ⟨e, he, rfl⟩ := List.mem_map.1 hid
  obtain ⟨u, hu, _⟩ := h.found e he
  rw [hu]
  nofun

/-- The top entry was not finished before. -/
theorem not_finished (h : c.Perched l) (hst : c.stack = e :: rest) :
    ¬ (e.txn.state ≠ .active ∨ ∃ u, l.find? e.txn.id = some u ∧ u.state ≠ .active) := by
  have he : e ∈ c.stack := by simp [hst]
  rintro (hn | ⟨u, hu, hn⟩)
  · exact hn (h.active e he)
  · exact hn (h.record_active he hu)

/-- An empty stack. -/
theorem of_nil (hst : c.stack = []) : c.Perched l where
  idle _ := hst
  active e he := by
    rw [hst] at he
    cases he
  found e he := by
    rw [hst] at he
    cases he
  nodup := by simp [ids, hst]
  child e he := by
    rw [hst] at he
    cases he

/-- The stack stays, and so do its records. -/
theorem keep (h : c.Perched l) (hst : c'.stack = c.stack)
    (hph : c'.phase ≠ .active → c.phase ≠ .active ∨ c.stack = [])
    (hk : ∀ e ∈ c.stack, ∀ t, l.find? e.txn.id = some t →
      ∃ u, l'.find? e.txn.id = some u ∧ u.bare = t.bare) : c'.Perched l' where
  idle hp := hst.trans ((hph hp).elim h.idle id)
  active := hst ▸ h.active
  found e he := by
    rw [hst] at he
    obtain ⟨t, ht, hb⟩ := h.found e he
    obtain ⟨u, hu, hut⟩ := hk e he t ht
    exact ⟨u, hu, hut.trans hb⟩
  nodup := by
    rw [ids, hst]
    exact h.nodup
  child := hst ▸ h.child

theorem of_txns (h : c.Perched l) (ht : l'.txns = l.txns) : c.Perched l' :=
  h.keep rfl .inl fun _ _ t hf => ⟨t, by rw [find?_congr ht, hf], rfl⟩

/-- Destinations do not matter. -/
theorem of_bare (h : c.Perched l) (hb : st.map Savepoint.bare = c.stack.map Savepoint.bare) :
    ({ c with stack := st } : Connection).Perched l where
  idle hp := List.map_eq_nil_iff.1 (hb.trans (by rw [h.idle hp]; rfl))
  active e he := by
    obtain ⟨d, hd, hde⟩ := List.mem_map.1 (hb ▸ List.mem_map_of_mem (f := Savepoint.bare) he)
    rw [← Txn.state_of_bare (congrArg Savepoint.txn hde), h.active d hd]
  found e he := by
    obtain ⟨d, hd, hde⟩ := List.mem_map.1 (hb ▸ List.mem_map_of_mem (f := Savepoint.bare) he)
    have hbare : d.txn.bare = e.txn.bare := congrArg Savepoint.txn hde
    obtain ⟨t, ht, htd⟩ := h.found d hd
    exact ⟨t, by rw [← Txn.id_of_origin (Txn.origin_of_bare hbare), ht], htd.trans hbare⟩
  nodup := by
    rw [ids_of_bare hb]
    exact h.nodup
  child e he := by
    have hbl : (st.dropLast).map Savepoint.bare = (c.stack.dropLast).map Savepoint.bare := by
      rw [List.map_dropLast, List.map_dropLast, hb]
    obtain ⟨d, hd, hde⟩ := List.mem_map.1 (hbl ▸ List.mem_map_of_mem (f := Savepoint.bare) he)
    have hbare : d.txn.bare = e.txn.bare := congrArg Savepoint.txn hde
    rw [← Txn.parent_of_origin (Txn.origin_of_bare hbare)]
    exact h.child d hd

/-- A new active record comes onto the stack. -/
theorem push (h : c.Perched s.ledger) (name : String) (hf : s.ledger.find? t.id = none)
    (ha : t.state = .active) (hp : c.stack = [] ∨ t.parent ≠ none)
    (hr : s.Records (s.ledger.insert t) s') (hst : c'.stack = ⟨name, t⟩ :: c.stack)
    (hph : c'.phase = .active) : c'.Perched s'.ledger where
  idle hn := absurd hph hn
  active := by
    rw [hst]
    exact List.forall_mem_cons.2 ⟨ha, h.active⟩
  found := by
    rw [hst]
    refine List.forall_mem_cons.2 ⟨⟨t, by rw [hr.find?, find?_insert, if_pos rfl], rfl⟩, ?_⟩
    intro e he
    obtain ⟨u, hu, hb⟩ := h.found e he
    have hne : t.id ≠ e.txn.id := fun heq => by
      rw [heq, hu] at hf
      cases hf
    exact ⟨u, by rw [hr.find?, find?_insert, if_neg hne, hu], hb⟩
  nodup := by
    rw [ids, hst, List.map_cons]
    exact List.nodup_cons.2 ⟨fun hm => h.recorded hm hf, h.nodup⟩
  child := by
    rw [hst]
    cases hcs : c.stack with
    | nil => exact fun _ he => absurd he List.not_mem_nil
    | cons d rest =>
      rw [List.dropLast_cons_cons, ← hcs]
      refine List.forall_mem_cons.2 ⟨hp.resolve_left fun hn => ?_, h.child⟩
      rw [hn] at hcs
      cases hcs

/-- The record of the top entry is finished, and the entry leaves the stack. -/
theorem drop (h : c.Perched s.ledger) (hst : c.stack = e :: rest) {u : Txn} {o : Outcome}
    (hu : s.ledger.find? e.txn.id = some u)
    (hr : s.Records (s.ledger.replace (u.finish o)) s') :
    ({ c with stack := rest } : Connection).Perched s'.ledger where
  idle hn := by
    rw [h.idle hn] at hst
    cases hst
  active d hd := h.active d (by rw [hst]; exact List.mem_cons_of_mem _ hd)
  found d hd := by
    have hnd := h.nodup
    rw [ids, hst, List.map_cons, List.nodup_cons] at hnd
    obtain ⟨t, ht, hb⟩ := h.found d (by rw [hst]; exact List.mem_cons_of_mem _ hd)
    have hne : u.id ≠ d.txn.id := by
      rw [id_of_find? hu]
      exact fun heq => hnd.1 (heq ▸ List.mem_map_of_mem hd)
    exact ⟨t, by rw [hr.find?, find?_replace, Txn.finish_id, if_neg hne, ht], hb⟩
  nodup := by
    have hnd := h.nodup
    rw [ids, hst, List.map_cons, List.nodup_cons] at hnd
    exact hnd.2
  child d hd := by
    refine h.child d ?_
    rw [hst]
    cases rest with
    | nil => cases hd
    | cons _ _ => exact List.mem_cons_of_mem _ hd

end Perched

/-- Whatever a connection does, it stays perched. -/
theorem Shift.perched (h : Shift config p p') (hp : p.1.Perched p.2.ledger) :
    p'.1.Perched p'.2.ledger := by
  cases h with
  | stay hst hph hs => exact hp.keep hst hph fun e _ t ht => ⟨t, by rw [hs.find?, ht], rfl⟩
  | @regrant c s s' st hs hk =>
    have hb := bare_of_kept hp.found hs hk
    exact (hp.of_bare hb).keep rfl .inl fun e _ t ht => hs.find? ht
  | @root c s s' ts hph _ hf hs _ =>
    exact hp.push c.name hf rfl (.inl (hp.idle (by rw [hph]; nofun))) hs rfl rfl
  | @child c s s' e rest ts d name hst _ _ _ hf hs _ =>
    refine hp.push (t := .child ts ts e.txn e.txn.isolation false d) name hf rfl (.inr nofun) hs
      rfl ?_
    by_contra hn
    rw [hp.idle hn] at hst
    cases hst
  | drop hst hu _ _ hs => exact hp.drop hst hu hs
  | skip hst hdone _ => exact (hp.not_finished hst hdone).elim

theorem Shift.sound (h : Shift config p p') (hp : p.1.Perched p.2.ledger)
    (hs : p.2.ledger.Sound config.maxAncestorDepth.toNat) :
    p'.2.ledger.Sound config.maxAncestorDepth.toNat := by
  cases h with
  | stay _ _ hr => exact hs.of_txns hr.txns
  | regrant hr _ => exact hr.sound hs
  | root _ _ hf hr _ => exact (hs.insert hf (placed_root _ _)).of_txns hr.txns
  | @child c s s' e rest ts d name hst _ hd _ hf hr _ =>
    obtain ⟨t, ht, hb⟩ := hp.found e (by simp [hst])
    exact (hs.insert hf (placed_child _ _ _ _ ht (Txn.origin_of_bare hb) hd)).of_txns hr.txns
  | drop _ hu ha _ hr =>
    rw [← id_of_find? hu] at hu
    exact (hs.finish hu ha _).of_txns hr.txns
  | skip _ _ hr => exact hs.of_txns hr.txns

/-- Whatever a connection does, it stays perched in a sound ledger. -/
theorem Shifts.perched (h : Shifts config p p') (hp : p.1.Perched p.2.ledger)
    (hs : p.2.ledger.Sound config.maxAncestorDepth.toNat) :
    p'.1.Perched p'.2.ledger ∧ p'.2.ledger.Sound config.maxAncestorDepth.toNat := by
  induction h with
  | refl => exact ⟨hp, hs⟩
  | tail _ step ih => exact ⟨step.perched ih.1, step.sound ih.1 ih.2⟩

end Connection

/-! ## One isolation level -/

/-- All transactions read at the isolation level `iso`. -/
def Ledger.Uniform (l : Ledger) (iso : Isolation) : Prop :=
  ∀ id t, l.find? id = some t → t.isolation = iso

theorem Ledger.Uniform.of_txns {l l' : Ledger} {iso : Isolation} (h : l.Uniform iso)
    (he : l'.txns = l.txns) : l'.Uniform iso :=
  fun id t ht => h id t (Ledger.find?_congr he id ▸ ht)

namespace Connection

open Ledger Services

variable {config : Config} {c : Connection} {l l' : Ledger} {p p' : Connection × Services}
  {e : Savepoint} {iso : Isolation}

/-- Records that grow keep their levels; what is new has to have the level. -/
theorem uniform_grows (h : l.Uniform iso) (hg : l.Grows l')
    (hnew : ∀ id t, l'.find? id = some t → l.find? id = none → t.isolation = iso) :
    l'.Uniform iso := by
  intro id t ht
  cases hf : l.find? id with
  | none => exact hnew id t ht hf
  | some u =>
    obtain ⟨v, hv, huv⟩ := hg id u hf
    rw [ht] at hv
    cases hv
    rw [Txn.isolation_of_origin huv.origin, h id u hf]

theorem Perched.isolation (h : c.Perched l) (hl : l.Uniform iso) (he : e ∈ c.stack) :
    e.txn.isolation = iso := by
  obtain ⟨t, ht, hb⟩ := h.found e he
  rw [← Txn.isolation_of_origin (Txn.origin_of_bare hb), hl _ t ht]

/-- What a connection begins is a root at the default level, or a child of the top entry at the
level of that, and comes onto the stack. -/
theorem Shift.begun (h : Shift config p p') {id : TxnId} {t : Txn}
    (ht : p'.2.ledger.find? id = some t) (hn : p.2.ledger.find? id = none) :
    id ∈ p'.1.ids ∧ (t = .root id id config.defaultIsolation ∨
      ∃ e rest d, p.1.stack = e :: rest ∧ t = .child id id e.txn e.txn.isolation false d) := by
  cases h with
  | stay _ _ hr | skip _ _ hr =>
    rw [hr.find?, hn] at ht
    cases ht
  | regrant hr _ =>
    obtain ⟨u, hu, _⟩ := hr.find?_before ht
    rw [hn] at hu
    cases hu
  | @root c s s' ts _ _ _ hr _ =>
    rw [hr.find?, find?_insert, hn] at ht
    split at ht
    · next hid =>
      cases ht
      obtain rfl : ts = id := hid
      exact ⟨List.mem_cons_self .., .inl rfl⟩
    · cases ht
  | @child c s s' e rest ts d name hst _ _ _ _ hr _ =>
    rw [hr.find?, find?_insert, hn] at ht
    split at ht
    · next hid =>
      cases ht
      obtain rfl : ts = id := hid
      exact ⟨List.mem_cons_self .., .inr ⟨e, rest, d, hst, rfl⟩⟩
    · cases ht
  | drop _ _ _ _ hr =>
    rw [hr.find?, find?_replace, hn] at ht
    split at ht <;> cases ht

/-- A connection begins roots at the default level, and children at that of their parents. -/
theorem Shift.uniform (h : Shift config p p') (hp : p.1.Perched p.2.ledger)
    (hl : p.2.ledger.Uniform config.defaultIsolation) :
    p'.2.ledger.Uniform config.defaultIsolation := by
  refine uniform_grows hl h.dated.grows fun id t ht hn => ?_
  rcases (h.begun ht hn).2 with rfl | ⟨e, rest, d, hst, rfl⟩
  · rfl
  · exact hp.isolation hl (by simp [hst])

theorem Shifts.uniform (h : Shifts config p p') (hp : p.1.Perched p.2.ledger)
    (hs : p.2.ledger.Sound config.maxAncestorDepth.toNat)
    (hl : p.2.ledger.Uniform config.defaultIsolation) :
    p'.2.ledger.Uniform config.defaultIsolation := by
  induction h with
  | refl => exact hl
  | tail h step ih => exact step.uniform (Shifts.perched h hp hs).1 ih

theorem Changes.uniform (h : Changes config p p') (hp : p.1.Perched p.2.ledger)
    (hs : p.2.ledger.Sound config.maxAncestorDepth.toNat)
    (hl : p.2.ledger.Uniform config.defaultIsolation) :
    p'.2.ledger.Uniform config.defaultIsolation := by
  rcases h with h | ⟨e, u, ts, globalTs, h⟩
  · exact h.uniform hp hs hl
  · -- a commit records nothing new
    refine uniform_grows hl h.dated.grows fun id t ht hn => ?_
    rw [h.records.find?, find?_replace, hn] at ht
    split at ht <;> cases ht

end Connection

end NestedTxn
