import NestedTxn.Proofs.Connection.Perched
import NestedTxn.Proofs.Ledger.Ancestry

/-!
# What a connection leaves behind

* `Connection.Linked`: each entry of the stack is a child of the next one, one level deeper.
* `Ledger.Decided l id`: the transaction `id` is terminal, or one above it is committed.
* `Connection.Upkept max p p'`: what a call may do to a perched and linked connection in a sound
  ledger. The connection stays so. What was on its stack or is newly recorded is still on the stack,
  or decided (`Upkept.left`); what is not on the stack is left alone (`Upkept.others`).
* `Upkept.of_records` derives most of this from what became of each record. With it `Shift.upkept`,
  `Cleared.upkept` and `activateNested_upkeep` say that all calls keep to it.
-/

namespace NestedTxn

namespace Ledger

/-- The transaction `id` is terminal, or one above it is committed. -/
def Decided (l : Ledger) (id : TxnId) : Prop :=
  ∃ t, l.find? id = some t ∧
    (t.state ≠ .active ∨ ∃ a u, l.Ancestor id a ∧ l.find? a = some u ∧ u.state = .committed)

/-- What is decided stays decided. -/
theorem Decided.grows {l l' : Ledger} {id : TxnId} (h : l.Decided id) (hg : l.Grows l') :
    l'.Decided id := by
  obtain ⟨t, ht, hstate⟩ := h
  obtain ⟨t', ht', htt⟩ := hg id t ht
  refine ⟨t', ht', ?_⟩
  rcases hstate with hterminal | ⟨a, u, ha, hu, hus⟩
  · left
    rwa [htt.final hterminal]
  · right
    obtain ⟨u', hu', huu⟩ := hg a u hu
    refine ⟨a, u', ha.grows hg, hu', ?_⟩
    rw [huu.final (by rw [hus]; decide), hus]

theorem Decided.of_finish {l : Ledger} {id : TxnId} {t : Txn} {o : Outcome}
    (h : l.find? id = some (t.finish o)) : l.Decided id := by
  refine ⟨_, h, .inl ?_⟩
  cases o <;> nofun

end Ledger

/-- The entry is a child of the entry `d`, one level deeper. -/
structure Savepoint.On (e d : Savepoint) : Prop where
  parent : e.txn.parent = some d.txn.id
  depth : e.txn.depth.toNat = d.txn.depth.toNat + 1

namespace Connection

open Ledger Services

/-- Each entry is a child of the next one, one level deeper. -/
def Linked (c : Connection) : Prop := c.stack.IsChain Savepoint.On

/-- What a call does to a perched and linked connection. -/
structure Upkept (max : Nat) (p p' : Connection × Services) : Prop where
  sound : p'.2.ledger.Sound max
  perched : p'.1.Perched p'.2.ledger
  linked : p'.1.Linked
  dated : p.2.Dated p'.2
  /-- The id of a new record was drawn on the way. -/
  issued : ∀ id t, p'.2.ledger.find? id = some t → p.2.ledger.find? id = none → p.2.Drawn p'.2 id
  /-- What comes onto the stack is new. -/
  fresh : ∀ id ∈ p'.1.ids, id ∈ p.1.ids ∨ p.2.ledger.find? id = none
  /-- What is not on the stack is left alone. -/
  others : ∀ id ∉ p.1.ids, ∀ t, p.2.ledger.find? id = some t →
    ∃ u, p'.2.ledger.find? id = some u ∧ u.bare = t.bare
  /-- What leaves the stack, or is new and never comes onto it, is decided. -/
  left : ∀ id, id ∈ p.1.ids ∨ p.2.ledger.find? id = none ∧ p'.2.ledger.find? id ≠ none →
    id ∈ p'.1.ids ∨ p'.2.ledger.Decided id

/-- A perched and linked connection in a sound ledger is kept so. -/
def Upkeep (max : Nat) (p p' : Connection × Services) : Prop :=
  p.2.ledger.Sound max → p.1.Perched p.2.ledger → p.1.Linked → Upkept max p p'

variable {config : Config} {max : Nat} {c c' : Connection} {s s' : Services} {l : Ledger}
  {p p' p'' : Connection × Services} {t : Txn}

/-! ## Stacks -/

/-- All entries hang below the bottom one. -/
theorem Linked.ancestor {st : List Savepoint} {b : Savepoint} (hl : st.IsChain Savepoint.On)
    (hfound : ∀ e ∈ st, ∃ t, l.find? e.txn.id = some t ∧ t.bare = e.txn.bare)
    (hb : st.getLast? = some b) : ∀ e ∈ st, e = b ∨ l.Ancestor e.txn.id b.txn.id := by
  induction hl with
  | nil => cases hb
  | singleton a =>
    cases hb
    exact fun e he => .inl (List.mem_singleton.1 he)
  | @cons_cons a d rest had _ ih =>
    rw [List.getLast?_cons_cons] at hb
    have hbelow := ih (fun e he => hfound e (List.mem_cons_of_mem _ he)) hb
    intro e he
    rcases List.mem_cons.1 he with rfl | he
    · obtain ⟨t, ht, hbare⟩ := hfound e (by simp)
      have hparent : l.ParentOf e.txn.id d.txn.id := by
        refine ⟨t, ht, ?_⟩
        rw [← had.parent]
        exact Txn.parent_of_origin (Txn.origin_of_bare hbare)
      right
      rw [ancestor_iff_parent hparent]
      rcases hbelow d (by simp) with rfl | ha
      · exact .inl rfl
      · exact .inr ha
    · exact hbelow e he

/-- Only what the transactions started with matters. -/
theorem Linked.of_origin {st st' : List Savepoint} (h : st.IsChain Savepoint.On)
    (ho : st'.map (·.txn.origin) = st.map (·.txn.origin)) : st'.IsChain Savepoint.On := by
  have horigin : ∀ st : List Savepoint, st.IsChain Savepoint.On ↔
      (st.map (·.txn.origin)).IsChain fun t u =>
        t.parent = some u.id ∧ t.depth.toNat = u.depth.toNat + 1 := by
    intro st
    rw [List.isChain_map]
    constructor
    · exact fun h => h.imp fun _ _ hon => ⟨hon.parent, hon.depth⟩
    · exact fun h => h.imp fun _ _ hon => ⟨hon.1, hon.2⟩
  rw [horigin st', ho, ← horigin st]
  exact h

/-- Destinations do not matter. -/
theorem Linked.of_bare {st st' : List Savepoint} (h : st.IsChain Savepoint.On)
    (hb : st'.map Savepoint.bare = st.map Savepoint.bare) : st'.IsChain Savepoint.On := by
  refine Linked.of_origin h ?_
  have ho := congrArg (List.map fun e : Savepoint => e.txn.origin) hb
  simpa only [List.map_map, Function.comp_def, Savepoint.bare, Txn.origin_bare] using ho

/-! ## Upkeep -/

/-- Each record is a former one, unchanged unless it is on the stack, or is new and on the stack. -/
theorem Upkept.of_records (hs : p'.2.ledger.Sound max) (hp : p'.1.Perched p'.2.ledger)
    (hl : p'.1.Linked) (hd : p.2.Dated p'.2)
    (hids : ∀ id ∈ p.1.ids, id ∈ p'.1.ids ∨ p'.2.ledger.Decided id)
    (hfresh : ∀ id ∈ p'.1.ids, id ∈ p.1.ids ∨ p.2.ledger.find? id = none)
    (hrec : ∀ id t, p'.2.ledger.find? id = some t →
      (∃ u, p.2.ledger.find? id = some u ∧ (id ∈ p.1.ids ∨ t.bare = u.bare)) ∨
      id ∈ p'.1.ids ∧ p.2.Drawn p'.2 id) : Upkept max p p' where
  sound := hs
  perched := hp
  linked := hl
  dated := hd
  issued id t ht hn := by
    rcases hrec id t ht with ⟨u, hu, _⟩ | ⟨_, hdrawn⟩
    · rw [hn] at hu
      cases hu
    · exact hdrawn
  fresh := hfresh
  others id hid t ht := by
    obtain ⟨u, hu, _⟩ := hd.grows id t ht
    refine ⟨u, hu, ?_⟩
    rcases hrec id u hu with ⟨v, hv, hbare⟩ | ⟨hin, _⟩
    · rw [ht] at hv
      cases hv
      exact hbare.resolve_left hid
    · rcases hfresh id hin with hold | hnew
      · exact absurd hold hid
      · rw [ht] at hnew
        cases hnew
  left id hid := by
    rcases hid with hold | ⟨hn, hsome⟩
    · exact hids id hold
    · obtain ⟨t, ht⟩ := Option.ne_none_iff_exists'.1 hsome
      rcases hrec id t ht with ⟨u, hu, _⟩ | ⟨hin, _⟩
      · rw [hn] at hu
        cases hu
      · exact .inl hin

theorem Upkeep.refl (max : Nat) (p : Connection × Services) : Upkeep max p p :=
  fun hs hp hl => .of_records hs hp hl (.refl _) (fun _ => .inl) (fun _ => .inl)
    fun _ t ht => .inl ⟨t, ht, .inr rfl⟩

theorem Upkeep.trans (max : Nat) (p p' p'' : Connection × Services) (h : Upkeep max p p')
    (h' : Upkeep max p' p'') : Upkeep max p p'' := by
  intro hs hp hl
  have hu := h hs hp hl
  have hu' := h' hu.sound hu.perched hu.linked
  have hrecorded : ∀ id, p'.2.ledger.find? id = none → p.2.ledger.find? id = none := by
    intro id hn
    by_contra hsome
    obtain ⟨t, ht⟩ := Option.ne_none_iff_exists'.1 hsome
    obtain ⟨u, hu, _⟩ := hu.dated.grows id t ht
    rw [hn] at hu
    cases hu
  refine ⟨hu'.sound, hu'.perched, hu'.linked, hu.dated.trans _ _ _ hu'.dated, ?_, ?_, ?_, ?_⟩
  · intro id t ht hn
    cases hf : p'.2.ledger.find? id with
    | none => exact (hu'.issued id t ht hf).widen_left hu.dated.toElapsed
    | some u => exact (hu.issued id u hf hn).widen_right hu'.dated.toElapsed
  · intro id hid
    rcases hu'.fresh id hid with hid' | hn
    · exact hu.fresh id hid'
    · exact .inr (hrecorded id hn)
  · intro id hid t ht
    obtain ⟨u, hut, hbare⟩ := hu.others id hid t ht
    have hid' : id ∉ p'.1.ids := by
      intro hin
      rcases hu.fresh id hin with hold | hn
      · exact hid hold
      · rw [ht] at hn
        cases hn
    obtain ⟨v, hv, hvu⟩ := hu'.others id hid' u hut
    exact ⟨v, hv, hvu.trans hbare⟩
  · intro id hid
    -- what the first part left decided stays so
    have hlater : id ∈ p'.1.ids ∨ p'.2.ledger.Decided id →
        id ∈ p''.1.ids ∨ p''.2.ledger.Decided id := by
      rintro (hin | hdec)
      · exact hu'.left id (.inl hin)
      · exact .inr (hdec.grows hu'.dated.grows)
    rcases hid with hold | ⟨hn, hsome⟩
    · exact hlater (hu.left id (.inl hold))
    · by_cases hmid : p'.2.ledger.find? id = none
      · exact hu'.left id (.inr ⟨hmid, hsome⟩)
      · exact hlater (hu.left id (.inr ⟨hn, hmid⟩))

/-! ## Shifts -/

/-- Stack and records stay, up to destinations. -/
theorem upkeep_of_bare (hsound : s.ledger.Sound max → s'.ledger.Sound max) (hd : s.Dated s')
    (hrec : ∀ id, (s'.ledger.find? id).map Txn.bare = (s.ledger.find? id).map Txn.bare)
    (hst : c'.stack.map Savepoint.bare = c.stack.map Savepoint.bare)
    (hph : c'.phase ≠ .active → c.phase ≠ .active ∨ c.stack = []) :
    Upkeep max (c, s) (c', s') := by
  intro hs hp hl
  have hids : c'.ids = c.ids := ids_of_bare (c := c) hst
  have hkept : ({ c with stack := c'.stack } : Connection).Perched s'.ledger := by
    refine (hp.of_bare hst).keep rfl .inl fun e _ t ht => ?_
    have hr := hrec e.txn.id
    rw [ht] at hr
    exact Option.map_eq_some_iff.1 hr
  refine .of_records (hsound hs) (hkept.keep rfl ?_ fun _ _ t ht => ⟨t, ht, rfl⟩)
    (Linked.of_bare hl hst) hd ?_ ?_ ?_
  · intro hn
    refine (hph hn).imp_right fun hnil => ?_
    simpa [hnil] using hst
  · exact fun id hid => .inl (hids ▸ hid)
  · exact fun id hid => .inl (hids ▸ hid)
  · intro id t ht
    have hr := hrec id
    rw [ht] at hr
    obtain ⟨u, hu, hut⟩ := Option.map_eq_some_iff.1 hr.symm
    exact .inl ⟨u, hu, .inr hut.symm⟩

/-- A new record comes onto the stack. -/
theorem upkeep_push {name : String} (hf : s.ledger.find? t.id = none)
    (hr : s.Records (s.ledger.insert t) s')
    (hclock : s.clock.reading s.clock.taken = some t.id) (hc : s'.clock = s.ticked.clock)
    (hbegin : t.beginTimestamp = t.id) (hnew : t.state = .active ∧ t.commitTimestamp = none)
    (hplaced : s.ledger.Placed max t) (hpar : ∀ d ∈ c.stack.head?, t.parent = some d.txn.id)
    (hst : c'.stack = ⟨name, t⟩ :: c.stack) (hph : c'.phase = .active) :
    Upkeep max (c, s) (c', s') := by
  intro hs hp hl
  have hchild : c.stack = [] ∨ t.parent ≠ none := by
    cases hcs : c.stack with
    | nil => exact .inl rfl
    | cons d rest =>
      right
      rw [hpar d (by simp [hcs])]
      nofun
  have hids : c'.ids = t.id :: c.ids := by simp [ids, hst]
  refine .of_records ((hs.insert hf hplaced).of_txns hr.txns)
    (hp.push name hf hnew.1 hchild hr hst hph) ?_ (dated_insert (hbegin ▸ hclock) hc hnew.2 hf hr)
    ?_ ?_ ?_
  · rw [Linked, hst, List.isChain_cons]
    refine ⟨fun d hd => ⟨hpar d hd, ?_⟩, hl⟩
    -- the record of the parent is as deep as its entry
    obtain ⟨-, u, hu, hdepth⟩ := hplaced.child _ (hpar d hd)
    obtain ⟨v, hv, hbare⟩ := hp.found d (List.mem_of_mem_head? hd)
    rw [hu] at hv
    cases hv
    rw [hdepth, Txn.depth_of_origin (Txn.origin_of_bare hbare)]
  · exact fun id hid => .inl (by simp [hids, hid])
  · intro id hid
    rw [hids] at hid
    rcases List.mem_cons.1 hid with rfl | hid
    · exact .inr hf
    · exact .inl hid
  · intro id u hu
    rw [hr.find?, find?_insert] at hu
    split at hu
    · next hid =>
      subst hid
      refine .inr ⟨by simp [hids], s.clock.taken, Nat.le_refl _, ?_, hclock⟩
      rw [hc]
      exact Nat.lt_succ_self _
    · exact .inl ⟨u, hu, .inr rfl⟩

/-- Whatever a connection does, it stays linked, and what it leaves behind is decided. -/
theorem Shift.upkeep (h : Shift config p p') : Upkeep config.maxAncestorDepth.toNat p p' := by
  intro hs hp hl
  have hdated := h.dated
  have hperched := h.perched hp
  have hsound := h.sound hp hs
  cases h with
  | stay hst hph hr =>
    refine upkeep_of_bare (fun h => h.of_txns hr.txns) hdated (fun id => ?_) ?_ hph hs hp hl
    · rw [hr.find?]
    · rw [hst]
  | @regrant c s s' st hr hk =>
    exact upkeep_of_bare hr.sound hdated hr.bare (bare_of_kept hp.found hr hk) .inl hs hp hl
  | @root c s s' ts hph hr hf hrec hc =>
    have hnil : c.stack = [] := hp.idle (by rw [hph]; nofun)
    refine upkeep_push (t := .root ts ts config.defaultIsolation) hf hrec hr hc rfl ⟨rfl, rfl⟩
      (placed_root _ _) ?_ rfl rfl hs hp hl
    simp [hnil]
  | @child c s s' e rest ts d name hst _ hd hr hf hrec hc =>
    obtain ⟨u, hu, hb⟩ := hp.found e (by simp [hst])
    refine upkeep_push (t := .child ts ts e.txn e.txn.isolation false d) hf hrec hr hc rfl
      ⟨rfl, rfl⟩ (placed_child _ _ _ _ hu (Txn.origin_of_bare hb) hd) ?_ rfl ?_ hs hp hl
    · intro d hd
      obtain rfl : e = d := by simpa [hst] using hd
      rfl
    · by_contra hn
      rw [hp.idle hn] at hst
      cases hst
  | @drop c s s' e rest u o hst hu ha hdrawn hr =>
    have hids : c.ids = e.txn.id :: rest.map (·.txn.id) := by simp [ids, hst]
    refine .of_records hsound hperched ?_ hdated ?_ ?_ ?_
    · rw [Linked, hst] at hl
      exact hl.tail
    · intro id hid
      rw [hids] at hid
      rcases List.mem_cons.1 hid with rfl | hid
      · refine .inr (.of_finish (t := u) (o := o) ?_)
        rw [hr.find?, find?_replace, Txn.finish_id, id_of_find? hu, if_pos rfl, hu]
        rfl
      · exact .inl hid
    · exact fun id hid => .inl (hids ▸ List.mem_cons_of_mem _ hid)
    · intro id t ht
      left
      rw [hr.find?, find?_replace, Txn.finish_id, id_of_find? hu] at ht
      split at ht
      · next hid =>
        subst hid
        exact ⟨u, hu, .inl (by simp [hids])⟩
      · exact ⟨t, ht, .inr rfl⟩
  | skip hst hdone _ => exact (hp.not_finished hst hdone).elim

theorem Shifts.upkeep (h : Shifts config p p') : Upkeep config.maxAncestorDepth.toNat p p' := by
  induction h with
  | refl => exact .refl _ p
  | tail _ step ih => exact .trans _ _ _ _ ih step.upkeep

/-- A commit of the bottom entry decides all that is above it. -/
theorem Cleared.upkeep {e : Savepoint} {u : Txn} {ts : Timestamp} {globalTs : Option Timestamp}
    (h : Cleared p p' e u ts globalTs) (max : Nat) : Upkeep max p p' := by
  intro hs hp hl
  have hu := h.found
  rw [← id_of_find? hu] at hu
  have hst : p'.1.stack = [] := by rw [h.connection]
  have hgrows := h.dated.grows
  -- the record of the bottom entry
  have hbottom : p'.2.ledger.find? e.txn.id = some (u.finish (.committed ts globalTs)) := by
    rw [h.records.find?, find?_replace, Txn.finish_id, id_of_find? h.found, if_pos rfl, h.found]
    rfl
  refine .of_records ((hs.finish hu h.active _).of_txns h.records.txns) (.of_nil hst) ?_ h.dated
    ?_ ?_ ?_
  · rw [Linked, hst]
    exact .nil
  · intro id hid
    obtain ⟨d, hd, rfl⟩ := List.mem_map.1 hid
    right
    rcases Linked.ancestor hl hp.found h.bottom d hd with rfl | ha
    · exact .of_finish hbottom
    · obtain ⟨t, ht, _⟩ := hp.found d hd
      obtain ⟨t', ht', _⟩ := hgrows _ t ht
      exact ⟨t', ht', .inr ⟨_, _, ha.grows hgrows, hbottom, rfl⟩⟩
  · intro id hid
    rw [ids, hst] at hid
    cases hid
  · intro id t ht
    left
    rw [h.records.find?, find?_replace, Txn.finish_id, id_of_find? h.found] at ht
    split at ht
    · next hid =>
      subst hid
      exact ⟨u, h.found, .inl (List.mem_map_of_mem (List.mem_of_getLast? h.bottom))⟩
    · exact ⟨t, ht, .inr rfl⟩

theorem Changes.upkeep (h : Changes config p p') : Upkeep config.maxAncestorDepth.toNat p p' := by
  rcases h with h | ⟨e, u, ts, globalTs, h⟩
  · exact h.upkeep
  · exact h.upkeep _

/-- A connection that starts under a transaction that was handed out before. -/
theorem activateNested_upkeep {outer u : Txn} (additive : Bool) (table : Option Table)
    {p : Connection × Services} (hu : p.2.ledger.find? outer.id = some u)
    (ho : u.origin = outer.origin) :
    Upkeep config.maxAncestorDepth.toNat p
      ((activateNested config outer additive table).exec p).2 := by
  intro hs hp hl
  rw [activateNested, Act.exec_bind_ok (Act.exec_get p)]
  cases hph : p.1.phase with
  | closed | active => exact Upkeep.refl _ p hs hp hl
  | idle =>
    simp only [Act.exec_bind, Act.exec_onSnd]
    rcases Lifecycle.beginChild_cases config outer (some outer.isolation) additive table p.2 with
      ⟨e, s', hx, hr⟩ | ⟨ts, d, s', hr, hf, _, hd, hx, hrec, hc⟩
    · rw [hx]
      exact (shift_of_records hr).upkeep hs hp hl
    · rw [hx]
      have hnil : p.1.stack = [] := hp.idle (by rw [hph]; nofun)
      refine upkeep_push (t := .child ts ts outer outer.isolation additive d) hf hrec hr hc rfl
        ⟨rfl, rfl⟩ (placed_child _ _ _ _ hu ho hd) ?_ rfl rfl hs hp hl
      simp [hnil]

end Connection

end NestedTxn
