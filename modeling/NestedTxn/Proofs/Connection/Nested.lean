import NestedTxn.Proofs.Connection.Perched
import NestedTxn.Proofs.Visibility.Safety

/-!
# Connections under a transaction of another connection

* `Connection.Work`: the calls between the start of a connection and its commit.
  `Connection.work`: the state after any number of them, whether or not they succeed.
* `Connection.Offspring l₀ outer c l`: the connection `c` was started under the transaction `outer`
  of the ledger `l₀`, and what is new in the ledger `l` is its work. Every call keeps that
  (`Shifts.offspring`).
* `Connection.openSavepoints`: the savepoints that a commit finalizes without recording it.
  `Offspring.after_commit`: these are the only new transactions still recorded as active.
* `Connection.classify_nested_iff`: what the outer transaction sees of the work after the commit. It
  hides what was rolled back, but also everything below an open savepoint (`nested_work_hidden`).
-/

namespace NestedTxn

namespace Connection

open Ledger Services SnapshotFilter Lifecycle

/-! ## Work on a connection -/

/-- A call between the start of a connection and its commit. -/
inductive Work where
  | savepoint (name : String)
  | release (name : String)
  | rollbackTo (name : String)
  | elevate (table : Table)

/-- The call. -/
def Work.run (config : Config) : Work → Act (Connection × Services) TxnError Unit
  | savepoint name => discard (setSavepoint config name)
  | release name => discard (releaseSavepoint config name)
  | rollbackTo name => discard (Connection.rollbackTo config name)
  | elevate table => discard (Connection.elevate config table)

/-- The state after a number of calls. A call that fails keeps what it did. -/
def work (config : Config) : List Work → Connection × Services → Connection × Services
  | [], p => p
  | x :: rest, p => work config rest ((x.run config).exec p).2

/-- The ids of the entries above the bottom one. -/
def openSavepoints (c : Connection) : List TxnId := c.stack.dropLast.map (·.txn.id)

variable {config : Config} {c c' : Connection} {l₀ l l' : Ledger} {s : Services}
  {p p' : Connection × Services} {id : TxnId} {outer t : Txn}

theorem work_append (before after : List Work) (p : Connection × Services) :
    work config (before ++ after) p = work config after (work config before p) := by
  induction before generalizing p with
  | nil => rfl
  | cons x rest ih => exact ih _

theorem Work.run_shifts (config : Config) (x : Work) :
    Act.Keeps (Shifts config) (x.run config) := by
  cases x with
  | savepoint name => exact (setSavepoint_shifts config name).map _
  | release name => exact (releaseSavepoint_shifts config name).map _
  | rollbackTo name => exact (rollbackTo_shifts config name).map _
  | elevate table => exact (elevate_shifts config table).map _

theorem work_shifts (config : Config) (xs : List Work) (p : Connection × Services) :
    Shifts config p (work config xs p) := by
  induction xs generalizing p with
  | nil => exact .refl config p
  | cons x rest ih => exact .trans config _ _ _ (x.run_shifts config p) (ih _)

/-! ## What is new -/

/-- The connection was started under the transaction `outer` of the ledger `l₀`, and what is new in
the ledger `l` is its work. -/
structure Offspring (l₀ : Ledger) (outer : TxnId) (c : Connection) (l : Ledger) : Prop where
  perched : c.Perched l
  grows : l₀.Grows l
  /-- The entries are new. -/
  fresh : ∀ id ∈ c.ids, l₀.find? id = none
  /-- What is new and active is on the stack. -/
  live : ∀ id t, l.find? id = some t → l₀.find? id = none → t.state = .active → id ∈ c.ids
  /-- The parent of what is new is new, or the outer transaction. -/
  parent : ∀ id t q, l.find? id = some t → l₀.find? id = none → t.parent = some q →
    q = outer ∨ l₀.find? q = none

/-- The same after a change. Records that are not new were there with the same parent, and did not
become active again or leave the stack as active ones. -/
theorem Offspring.step {outer : TxnId} (h : Offspring l₀ outer c l) (hp : c'.Perched l')
    (hg : l.Grows l') (hids : ∀ id ∈ c'.ids, id ∈ c.ids ∨ l.find? id = none)
    (hrec : ∀ id t, l'.find? id = some t →
      (∃ u, l.find? id = some u ∧ u.parent = t.parent ∧
        (t.state = .active → u.state = .active ∧ (id ∈ c.ids → id ∈ c'.ids))) ∨
      id ∈ c'.ids ∧ ∀ q, t.parent = some q → q = outer ∨ q ∈ c.ids) :
    Offspring l₀ outer c' l' where
  perched := hp
  grows := h.grows.trans hg
  fresh id hid := by
    rcases hids id hid with hold | hnew
    · exact h.fresh id hold
    · by_contra hn
      obtain ⟨t, ht⟩ := Option.ne_none_iff_exists'.1 hn
      obtain ⟨u, hu, _⟩ := h.grows id t ht
      rw [hnew] at hu
      cases hu
  live id t ht hn ha := by
    rcases hrec id t ht with ⟨u, hu, _, hstay⟩ | ⟨hid, _⟩
    · exact (hstay ha).2 (h.live id u hu hn (hstay ha).1)
    · exact hid
  parent id t q ht hn hq := by
    rcases hrec id t ht with ⟨u, hu, hup, _⟩ | ⟨_, hpar⟩
    · exact h.parent id u q hu hn (hup.trans hq)
    · exact (hpar q hq).imp_right (h.fresh q)

/-- A connection without entries, when nothing is new. -/
theorem offspring_of_nil {outer : TxnId} (hst : c.stack = []) : Offspring l outer c l where
  perched := .of_nil hst
  grows := .refl l
  fresh id hid := by
    rw [ids, hst] at hid
    cases hid
  live id t ht hn := by
    rw [hn] at ht
    cases ht
  parent id t q ht hn := by
    rw [hn] at ht
    cases ht

theorem Shift.offspring {outer : TxnId} (h : Shift config p p')
    (hp : Offspring l₀ outer p.1 p.2.ledger) : Offspring l₀ outer p'.1 p'.2.ledger := by
  have hperched := h.perched hp.perched
  have hgrows := h.dated.grows
  cases h with
  | @stay c c' s s' hst _ hr =>
    have hids : c'.ids = c.ids := congrArg (List.map _) hst
    refine hp.step hperched hgrows (fun id hid => .inl (hids ▸ hid)) fun id t ht => .inl ?_
    rw [hr.find?] at ht
    exact ⟨t, ht, rfl, fun ha => ⟨ha, fun hid => hids ▸ hid⟩⟩
  | @regrant c s s' st hr hk =>
    have hids : ({ c with stack := st } : Connection).ids = c.ids :=
      ids_of_bare (bare_of_kept hp.perched.found hr hk)
    refine hp.step hperched hgrows (fun id hid => .inl (hids ▸ hid)) fun id t ht => .inl ?_
    obtain ⟨u, hu, hut⟩ := hr.find?_before ht
    exact ⟨u, hu, Txn.parent_of_origin (Txn.origin_of_bare hut), fun ha =>
      ⟨(Txn.state_of_bare hut).trans ha, fun hid => hids ▸ hid⟩⟩
  | @root c s s' ts _ _ hf hr _ =>
    refine hp.step hperched hgrows (fun id hid => ?_) fun id t ht => ?_
    · rcases List.mem_cons.1 hid with rfl | hid
      · exact .inr hf
      · exact .inl hid
    · rw [hr.find?, find?_insert] at ht
      split at ht
      · next heq =>
        cases ht
        exact .inr ⟨List.mem_cons.2 (.inl heq.symm), nofun⟩
      · exact .inl ⟨t, ht, rfl, fun ha => ⟨ha, List.mem_cons_of_mem _⟩⟩
  | @child c s s' e rest ts d name hst _ _ _ hf hr _ =>
    refine hp.step hperched hgrows (fun id hid => ?_) fun id t ht => ?_
    · rcases List.mem_cons.1 hid with rfl | hid
      · exact .inr hf
      · exact .inl hid
    · rw [hr.find?, find?_insert] at ht
      split at ht
      · next heq =>
        cases ht
        refine .inr ⟨List.mem_cons.2 (.inl heq.symm), fun q hq => .inr ?_⟩
        cases hq
        rw [ids, hst]
        exact List.mem_cons_self ..
      · exact .inl ⟨t, ht, rfl, fun ha => ⟨ha, List.mem_cons_of_mem _⟩⟩
  | @drop c s s' e rest u o hst hu _ _ hr =>
    refine hp.step hperched hgrows (fun id hid => .inl ?_) fun id t ht => .inl ?_
    · rw [ids, hst]
      exact List.mem_cons_of_mem _ hid
    · rw [hr.find?, find?_replace, Txn.finish_id] at ht
      split at ht
      · next heq =>
        -- the entry that was finished
        rw [← heq, id_of_find? hu, hu] at ht
        cases ht
        refine ⟨u, by rw [← heq, id_of_find? hu, hu], ?_, fun ha => ?_⟩
        · exact Txn.parent_of_origin (Txn.origin_finish u o).symm
        · cases o <;> cases ha
      · next hne =>
        refine ⟨t, ht, rfl, fun ha => ⟨ha, fun hid => ?_⟩⟩
        rw [ids, hst] at hid
        rcases List.mem_cons.1 hid with heq | hid
        · exact absurd ((id_of_find? hu).trans heq.symm) hne
        · exact hid
  | skip hst hdone _ => exact (hp.perched.not_finished hst hdone).elim

theorem Shifts.offspring {outer : TxnId} (h : Shifts config p p')
    (hp : Offspring l₀ outer p.1 p.2.ledger) : Offspring l₀ outer p'.1 p'.2.ledger := by
  induction h with
  | refl => exact hp
  | tail _ step ih => exact step.offspring ih

/-- A connection starts with a child of the outer transaction. -/
theorem activateNested_offspring {additive : Bool} {table : Option Table} {u : Txn}
    (hidle : c.phase = .idle) (hst : c.stack = [])
    (hs : s.ledger.Sound config.maxAncestorDepth.toNat)
    (hu : s.ledger.find? outer.id = some u) (ho : u.origin = outer.origin)
    (h : (activateNested config outer additive table).exec (c, s) = (.ok (), p)) :
    Offspring s.ledger outer.id p.1 p.2.ledger ∧
      p.2.ledger.Sound config.maxAncestorDepth.toNat := by
  rw [activateNested, Act.exec_bind_ok (Act.exec_get _)] at h
  simp only [hidle, Act.exec_bind, Act.exec_onSnd] at h
  rcases beginChild_cases config outer (some outer.isolation) additive table s with
    ⟨e, s', hx, _⟩ | ⟨ts, d, s', _, hf, _, hd, hx, hr, _⟩
  · rw [hx] at h
    cases h
  · rw [hx] at h
    cases h
    have hg := grows_insert (t := .child ts ts outer outer.isolation additive d) hf
    have hins := hs.insert hf (placed_child ts outer.isolation additive d hu ho hd)
    refine ⟨(offspring_of_nil hst).step ((Perched.of_nil hst).push c.name hf rfl (.inl hst) hr
      rfl rfl) (hg.trans (.of_txns hr.txns)) (fun id hid => ?_) fun id t ht => ?_,
      hins.of_txns hr.txns⟩
    · rcases List.mem_cons.1 hid with rfl | hid
      · exact .inr hf
      · exact .inl hid
    · rw [hr.find?, find?_insert] at ht
      split at ht
      · next heq =>
        cases ht
        refine .inr ⟨List.mem_cons.2 (.inl heq.symm), fun q hq => .inl ?_⟩
        cases hq
        rfl
      · exact .inl ⟨t, ht, rfl, fun ha => ⟨ha, List.mem_cons_of_mem _⟩⟩

/-- The chain of what is new runs through what is new, up to a root or to the outer transaction. -/
theorem Offspring.chain {outer : TxnId} {k b : List Txn} (h : Offspring l₀ outer c l)
    (hk : l.Chain id k) (hb : l.Chain outer b) (hid : l₀.find? id = none) {x : TxnId}
    (hx : x ∈ Ledger.ids k) : l₀.find? x = none ∨ x ∈ Ledger.ids b := by
  induction hk with
  | @root id t ht _ =>
    obtain rfl : x = t.id := List.mem_singleton.1 hx
    rw [id_of_find? ht]
    exact .inl hid
  | @child id q t k ht hq hk ih =>
    rw [Ledger.ids_cons] at hx
    rcases List.mem_cons.1 hx with rfl | hx
    · rw [id_of_find? ht]
      exact .inl hid
    · rcases h.parent id t q ht hid hq with rfl | hnew
      · rw [hk.unique hb] at hx
        exact .inr hx
      · exact ih hnew hx

/-! ## The commit -/

/-- An open savepoint is an entry, and its transaction is a child. -/
theorem mem_openSavepoints (h : c.Perched l) (hid : id ∈ c.openSavepoints) :
    id ∈ c.ids ∧ ∀ t, l.find? id = some t → t.state = .active ∧ t.parent ≠ none := by
  obtain ⟨e, he, rfl⟩ := List.mem_map.1 hid
  have hmem := (List.dropLast_sublist _).subset he
  refine ⟨List.mem_map_of_mem hmem, fun t ht => ⟨h.record_active hmem ht, ?_⟩⟩
  obtain ⟨u, hu, hb⟩ := h.found e hmem
  rw [ht] at hu
  cases hu
  rw [Txn.parent_of_origin (Txn.origin_of_bare hb)]
  exact h.child e he

/-- The entries are the open savepoints and the bottom one. -/
theorem mem_ids_iff {e : Savepoint} (he : c.stack.getLast? = some e) :
    id ∈ c.ids ↔ id ∈ c.openSavepoints ∨ id = e.txn.id := by
  rw [ids, openSavepoints, ← List.dropLast_append_getLast? e he]
  simp

/-- After a commit, what is new and active is an open savepoint, and open savepoints are active. -/
theorem Offspring.after_commit {outer : TxnId} {ts : Option Timestamp}
    (h : Offspring l₀ outer p.1 p.2.ledger) (hx : (commit config).exec p = (.ok ts, p'))
    (ht : p'.2.ledger.find? id = some t) (hid : l₀.find? id = none) :
    t.state = .active ↔ id ∈ p.1.openSavepoints := by
  rcases commit_cases config p with
    ⟨e, s', hy, _⟩ | ⟨c', s', hy, hdone, _, hr⟩ | ⟨e, u, ts', g, q, hy, hc⟩
  · rw [hx] at hy
    cases hy
  · -- there was nothing to commit
    rw [hx] at hy
    cases hy
    have hst : p.1.stack = [] := hdone.elim h.perched.idle fun hst => hst
    rw [hr.find?] at ht
    simp only [openSavepoints, hst, List.dropLast_nil, List.map_nil, List.not_mem_nil, iff_false]
    intro ha
    have hlive := h.live id t ht hid ha
    rw [ids, hst] at hlive
    cases hlive
  · rw [hx] at hy
    cases hy
    have hids := @mem_ids_iff p.1 id e hc.bottom
    rw [hc.records.find?, find?_replace, Txn.finish_id] at ht
    split at ht
    · next heq =>
      -- the bottom entry
      have heid : id = e.txn.id := by rw [← heq, id_of_find? hc.found]
      obtain ⟨v, _, rfl⟩ := Option.map_eq_some_iff.1 ht
      refine ⟨fun ha => (by cases ha), fun ho => ?_⟩
      have hnd := h.perched.nodup
      rw [ids, ← List.dropLast_append_getLast? e hc.bottom, List.map_append,
        List.nodup_append] at hnd
      exact absurd heid (hnd.2.2 id ho e.txn.id (by simp))
    · next hne =>
      refine ⟨fun ha => ?_, fun ho => ((mem_openSavepoints h.perched ho).2 t ht).1⟩
      refine (hids.1 (h.live id t ht hid ha)).resolve_right fun heq => hne ?_
      rw [heq, id_of_find? hc.found]

/-- A commit grows the ledger, and keeps it sound. -/
theorem commit_grows {max : Nat} {ts : Option Timestamp} (hs : p.2.ledger.Sound max)
    (hx : (commit config).exec p = (.ok ts, p')) :
    p.2.ledger.Grows p'.2.ledger ∧ p'.2.ledger.Sound max := by
  rcases commit_cases config p with
    ⟨e, s', hy, _⟩ | ⟨c', s', hy, _, _, hr⟩ | ⟨e, u, ts', g, q, hy, hc⟩
  · rw [hx] at hy
    cases hy
  · rw [hx] at hy
    cases hy
    exact ⟨.of_txns hr.txns, hs.of_txns hr.txns⟩
  · rw [hx] at hy
    cases hy
    have hu := hc.found
    rw [← id_of_find? hu] at hu
    exact ⟨hc.dated.grows, (hs.finish hu hc.active _).of_txns hc.records.txns⟩

end Connection

namespace SnapshotFilter

variable {l : Ledger} {max : Nat} {f : SnapshotFilter} {u : Txn} {id : TxnId} {k : List Txn}
  {unfinished : List TxnId}

/-- Of a chain that leads to the chain of the reader, what lies below must be committed: neither
rolled back nor left unfinished. -/
theorem decision_unfinished_below (hf : l.Chain f.reader.id (u :: f.ancestors)) (hk : l.Chain id k)
    (hlen : k.length ≤ f.maxDepth + 1) (hw : f.isFamily id = false)
    (hshared : ∃ t ∈ k, t.id ∈ Ledger.ids (u :: f.ancestors))
    (hoff : ∀ t ∈ k, t.id ∈ Ledger.ids (u :: f.ancestors) → t.id ∉ unfinished)
    (hactive : ∀ t ∈ k, t.id ∉ Ledger.ids (u :: f.ancestors) →
      (t.state = .active ↔ t.id ∈ unfinished)) :
    f.decision id k none = .visible ↔
      (∀ t ∈ k, t.id ∈ Ledger.ids (u :: f.ancestors) ∨ t.state ≠ .rolledBack) ∧
      ∀ t ∈ k, t.id ∉ unfinished := by
  have hfam : ∀ id, f.isFamily id = true ↔ id ∈ Ledger.ids (u :: f.ancestors) :=
    fun _ => isFamily_iff hf.id_head
  obtain ⟨a, ha, hin⟩ := hshared
  rw [decision_of_meets hf hk hw (List.any_eq_true.2 ⟨a, ha, (hfam a.id).2 hin⟩) hlen]
  constructor
  · intro h
    refine ⟨fun t ht => ?_, fun t ht ho => ?_⟩
    · refine (h t ht).imp (hfam t.id).1 fun hc => ?_
      rw [hc]
      decide
    · have hnot := fun hin => hoff t ht hin ho
      have hc := (h t ht).resolve_left fun hin => hnot ((hfam t.id).1 hin)
      have hact := (hactive t ht hnot).2 ho
      rw [hc] at hact
      cases hact
  · rintro ⟨hlive, hclosed⟩ t ht
    by_cases hin : t.id ∈ Ledger.ids (u :: f.ancestors)
    · exact .inl ((hfam t.id).2 hin)
    · have hnr := (hlive t ht).resolve_left hin
      right
      cases hstate : t.state with
      | active => exact absurd ((hactive t ht hin).1 hstate) (hclosed t ht)
      | rolledBack => exact absurd hstate hnr
      | committed => rfl

/-- A chain apart from that of the reader on which only children are active is committed or rolled
back. -/
theorem decision_unfinished_apart (hs : l.Sound max)
    (hf : l.Chain f.reader.id (u :: f.ancestors)) (hk : l.Chain id k)
    (hlen : k.length ≤ f.maxDepth + 1) (hno : ∀ t ∈ k, t.id ∉ Ledger.ids (u :: f.ancestors))
    (hchild : ∀ t ∈ k, t.state = .active → t.parent ≠ none) :
    f.decision id k none = .visible ↔
      (∀ t ∈ k, t.state ≠ .rolledBack) ∧
      ∀ ts, effectiveState k = .ok (.committed ts) → f.reader.isolation = .snapshot →
        ts ≤ f.reader.beginTimestamp := by
  have hm : f.meets k = false :=
    List.any_eq_false.2 fun t ht hin => hno t ht ((isFamily_iff hf.id_head).1 hin)
  obtain ⟨e, he⟩ := hk.effectiveState_ok hs
  rw [decision_of_not_meets hk hm hlen he]
  cases e with
  | active =>
    -- the root of the chain would be active
    obtain ⟨_, r, hr, hact⟩ := (hk.effectiveState_eq_active hs).1 he
    obtain ⟨hrk, hroot⟩ := hk.getLast?_eq_some.1 hr
    exact absurd hroot (hchild r hrk hact)
  | rolledBack =>
    obtain ⟨t, ht, hback⟩ := (hk.effectiveState_eq_rolledBack hs).1 he
    exact ⟨fun hv => (by cases hv), fun h => absurd hback (h.1 t ht)⟩
  | committed ts =>
    rw [atState, atCommit_eq_visible]
    constructor
    · intro hts
      refine ⟨((hk.effectiveState_eq_committed hs).1 he).1, fun ts' he' hi => ?_⟩
      rw [he] at he'
      cases he'
      exact hts hi
    · exact fun h hi => h.2 ts he hi

end SnapshotFilter

namespace Connection

open Ledger Services SnapshotFilter Lifecycle

variable {config : Config} {c : Connection}

/-- After the commit the outer transaction decides about new work by the nodes below its own chain:
they must not be rolled back, and not have been open savepoints. -/
theorem Offspring.decision_after_commit {l₀ : Ledger} {p p' : Connection × Services}
    {ts : Option Timestamp} {max : Nat} {f : SnapshotFilter} {u u' : Txn} {id : TxnId}
    {base k : List Txn} (h : Offspring l₀ f.reader.id p.1 p.2.ledger)
    (hs : p.2.ledger.Sound max) (hend : (commit config).exec p = (.ok ts, p'))
    (hout : l₀.Chain f.reader.id (u :: base))
    (hf : p'.2.ledger.Chain f.reader.id (u' :: f.ancestors)) (hid : l₀.find? id = none)
    (hk : p'.2.ledger.Chain id k) (hk₀ : p.2.ledger.find? id ≠ none)
    (hlen : k.length ≤ f.maxDepth + 1) :
    f.decision id k none = .visible ↔
      (∀ t ∈ k, t.id ∈ Ledger.ids (u :: base) ∨ t.state ≠ .rolledBack) ∧
      ((∃ t ∈ k, t.id ∈ Ledger.ids (u :: base)) → ∀ t ∈ k, t.id ∉ p.1.openSavepoints) ∧
      ((∀ t ∈ k, t.id ∉ Ledger.ids (u :: base)) → ∀ ts,
        effectiveState k = .ok (.committed ts) → f.reader.isolation = .snapshot →
          ts ≤ f.reader.beginTimestamp) := by
  obtain ⟨hg, hs'⟩ := commit_grows hs hend
  have hids : Ledger.ids (u' :: f.ancestors) = Ledger.ids (u :: base) :=
    hout.ids_later hf (h.grows.trans hg)
  obtain ⟨t₀, ht₀⟩ := Option.ne_none_iff_exists'.1 hk₀
  obtain ⟨k₀, hk₀⟩ := hs.chain ht₀
  -- a node on the chain of the outer transaction is not new
  have hold : ∀ id ∈ Ledger.ids (u :: base), l₀.find? id ≠ none := by
    intro id hid
    obtain ⟨t, ht, rfl⟩ := Ledger.mem_ids.1 hid
    rw [hout.find?_of_mem ht]
    nofun
  -- a node off that chain is
  have hnew : ∀ t ∈ k, t.id ∉ Ledger.ids (u :: base) → l₀.find? t.id = none := by
    intro t ht hno
    have hin : t.id ∈ Ledger.ids (t₀ :: k₀) :=
      hk₀.ids_later hk hg ▸ Ledger.mem_ids.2 ⟨t, ht, rfl⟩
    obtain ⟨b, hb, _⟩ := hout.grows h.grows
    refine (h.chain hk₀ hb hid hin).resolve_right fun hbin => hno ?_
    rwa [hout.ids_later hb h.grows] at hbin
  have hstranger : f.isFamily id = false := by
    refine Bool.eq_false_iff.2 fun hfam => hold id ?_ hid
    rw [← hids]
    exact (isFamily_iff hf.id_head).1 hfam
  rw [← hids] at hold hnew ⊢
  have hactive : ∀ t ∈ k, t.id ∉ Ledger.ids (u' :: f.ancestors) →
      (t.state = .active ↔ t.id ∈ p.1.openSavepoints) := fun t ht hno =>
    h.after_commit hend (hk.find?_of_mem ht) (hnew t ht hno)
  by_cases hshared : ∃ t ∈ k, t.id ∈ Ledger.ids (u' :: f.ancestors)
  · rw [decision_unfinished_below hf hk hlen hstranger hshared
      (fun t _ hin ho => hold t.id hin (h.fresh t.id (mem_openSavepoints h.perched ho).1)) hactive]
    obtain ⟨a, ha, hin⟩ := hshared
    exact ⟨fun ⟨hlive, hclosed⟩ => ⟨hlive, fun _ => hclosed, fun hno => absurd hin (hno a ha)⟩,
      fun ⟨hlive, hclosed, _⟩ => ⟨hlive, hclosed ⟨a, ha, hin⟩⟩⟩
  · have hno : ∀ t ∈ k, t.id ∉ Ledger.ids (u' :: f.ancestors) := fun t ht hin =>
      hshared ⟨t, ht, hin⟩
    rw [decision_unfinished_apart hs' hf hk hlen hno fun t ht hact => ?_]
    · exact ⟨fun ⟨hlive, hts⟩ => ⟨fun t ht => .inr (hlive t ht), fun h => absurd h hshared,
        fun _ => hts⟩, fun ⟨hlive, _, hts⟩ => ⟨fun t ht => (hlive t ht).resolve_left (hno t ht),
        hts hno⟩⟩
    · -- what is active was an open savepoint, and so a child
      have ho := (hactive t ht (hno t ht)).1 hact
      obtain ⟨t', ht', htt⟩ := hk₀.mem_before hk hg ht
      rw [Txn.id_of_origin htt.origin] at ho
      rw [Txn.parent_of_origin htt.origin]
      exact ((mem_openSavepoints h.perched ho).2 t' (hk₀.find?_of_mem ht')).2

/-- A connection is started under a transaction of a reached world, and its work is committed. Then
a fresh filter for the outer transaction shows a version that was written below it exactly if

* no entry on the chain of the writer was rolled back,
* the chain holds no savepoint that was open at the commit, and
* if the chain does not lead to the outer transaction, because its bottom entry had been ended and
  another one begun, its commit is within the snapshot of the outer transaction. -/
theorem classify_nested_iff {w₀ w : World} (h₀ : w₀.Fresh) (h : Reach config w₀ w)
    {outer u : Txn} {base : List Txn} (hout : w.ledger.Chain outer.id (u :: base))
    (hu : outer.Becomes u) (hidle : c.phase = .idle) (hst : c.stack = []) {additive : Bool}
    {table : Option Table} {p₀ p : Connection × Services}
    (hstart : (activateNested config outer additive table).exec (c, w.services) = (.ok (), p₀))
    (before after : List Work) {leaf : Txn}
    (hleaf : (work config before p₀).1.leaf? = some leaf) {ts : Option Timestamp}
    (hend : (commit config).exec (work config (before ++ after) p₀) = (.ok ts, p))
    (hup : p.2.ledger.switch.Up) (sink : Option Sink) {maxDepth : Nat}
    (hmax : config.maxAncestorDepth.toNat ≤ maxDepth) {v : RowVersion}
    (hw : v.writer = some leaf.id) (hv : v.resolution = none) :
    ∃ k f s x, p.2.ledger.Chain leaf.id k ∧ (load outer sink maxDepth).exec p.2 = (.ok f, s) ∧
      ((classify v).exec (f, s)).1 = .ok x ∧
      (x = .visible ↔
        (∀ t ∈ k, t.id ∈ Ledger.ids (u :: base) ∨ t.state ≠ .rolledBack) ∧
        ((∃ t ∈ k, t.id ∈ Ledger.ids (u :: base)) →
          ∀ t ∈ k, t.id ∉ (work config (before ++ after) p₀).1.openSavepoints) ∧
        ((∀ t ∈ k, t.id ∉ Ledger.ids (u :: base)) → ∀ ts,
          effectiveState k = .ok (.committed ts) → outer.isolation = .snapshot →
            ts ≤ outer.beginTimestamp)) := by
  obtain ⟨hoff₀, hs₀⟩ := activateNested_offspring hidle hst (h.genuine h₀).sound
    hout.find?_head hu.origin hstart
  have hbefore := work_shifts config before p₀
  have hafter := work_shifts config after (work config before p₀)
  rw [work_append] at hend ⊢
  generalize work config before p₀ = p₁ at hleaf hend hbefore hafter ⊢
  generalize work config after p₁ = p₂ at hend hafter ⊢
  have hoff₁ := hbefore.offspring hoff₀
  have hoff₂ := hafter.offspring hoff₁
  have hs₁ := (hbefore.perched hoff₀.perched hs₀).2
  have hs₂ := (hafter.perched hoff₁.perched hs₁).2
  obtain ⟨hg, hs⟩ := commit_grows hs₂ hend
  -- the leaf is new, and recorded from then on
  obtain ⟨e, he, rfl⟩ := Option.map_eq_some_iff.1 hleaf
  have hmem : e ∈ p₁.1.stack := List.mem_of_mem_head? he
  have hfresh := hoff₁.fresh e.txn.id (List.mem_map_of_mem hmem)
  obtain ⟨t₁, ht₁, _⟩ := hoff₁.perched.found e hmem
  obtain ⟨t₂, ht₂, _⟩ := hafter.dated.grows _ _ ht₁
  obtain ⟨t, ht, _⟩ := hg _ _ ht₂
  obtain ⟨k, hk⟩ := hs.chain ht
  have hlen := hk.length_le hs
  -- the filter holds what the outer transaction and its ancestors became
  obtain ⟨b, hb, hbecame⟩ := hout.grows (hoff₂.grows.trans hg)
  obtain _ | @⟨_, u', _, base', huu, _⟩ := hbecame
  have horigin : u'.origin = outer.origin := huu.origin.trans hu.origin
  obtain ⟨f, s, hreads, hrem, hf, hload⟩ := exec_load sink maxDepth (hb.id_head.symm ▸ hb)
    (Txn.id_of_origin horigin).symm (Txn.parent_of_origin horigin).symm hup
  have hload : (load outer sink maxDepth).exec p.2 = (.ok f, s) := by
    rcases hload with ⟨_, hload⟩ | ⟨hlt, _⟩
    · exact hload
    · have hle := hb.length_le hs
      omega
  have hreader : f.reader = outer := by rw [hf]
  have hanc : f.ancestors = base' := by rw [hf]
  have hdepth : f.maxDepth = maxDepth := by rw [hf]
  obtain ⟨q, hq, _⟩ := exec_classify hw (hk.of_txns hreads.txns) hrem (hreads.up hup)
  rw [hv] at hq
  refine ⟨t :: k, f, s, _, hk, hload, by rw [hq], ?_⟩
  subst hreader hanc
  refine hoff₂.decision_after_commit hs₂ hend hout hb hfresh hk (by rw [ht₂]; nofun) ?_
  rw [List.length_cons]
  omega

/-! ## A savepoint under an outer transaction, released or still open -/

/-- The outer transaction. -/
def outerRoot : Txn := .root 1 1 .snapshot

/-- The world in which it began. -/
def outerWorld : World := World.empty.after {} (.beginRoot .snapshot)

/-- A connection that was started under it. -/
def nestedStart : Connection × Services :=
  ((activateNested {} outerRoot false none).exec (ofName {} "nested", outerWorld.services)).2

/-- The commit after the given work. -/
def nestedEnd (xs : List Work) : Connection × Services :=
  ((commit {}).exec (work {} xs nestedStart)).2

/-- The first savepoint, as it began. -/
def nestedLeaf : Txn := .child 3 3 (.child 2 2 outerRoot .snapshot false none) .snapshot false none

/-- A version that was written under the first savepoint. -/
def nestedVersion : RowVersion := { key := [1], writer := some 3, value := some [2] }

theorem reach_outerWorld : Reach {} World.empty outerWorld := by
  refine .tail .refl (.call fun t ht => ?_)
  cases ht

/-- Work in which the savepoint is released, after a part was rolled back. -/
def releasing : List Work :=
  [.savepoint "a"] ++ [.savepoint "b", .rollbackTo "b", .release "a"]

theorem nestedStart_eq : (activateNested {} outerRoot false none).exec
    (ofName {} "nested", outerWorld.services) = (.ok (), nestedStart) := rfl

/-- What was written under the released savepoint is visible. -/
theorem classify_nested_iff_released :
    ∃ f s, (load outerRoot none 64).exec (nestedEnd releasing).2 = (.ok f, s) ∧
      ((classify nestedVersion).exec (f, s)).1 = .ok .visible := by
  have hout : outerWorld.ledger.Chain outerRoot.id [outerRoot] := .root (by decide) rfl
  have hleaf : (work {} [.savepoint "a"] nestedStart).1.leaf? = some nestedLeaf := rfl
  have hend : (commit {}).exec (work {} releasing nestedStart) =
      (.ok (some 8), nestedEnd releasing) := rfl
  have hdepth : ({} : Config).maxAncestorDepth.toNat ≤ 64 := by decide
  have hw : nestedVersion.writer = some nestedLeaf.id := rfl
  obtain ⟨k, f, s, x, hk, hl, hx, hiff⟩ := classify_nested_iff World.empty_fresh reach_outerWorld
    hout (.refl _) rfl rfl nestedStart_eq _ _ hleaf hend (fun _ _ => rfl) none hdepth hw rfl
  have hchain : (nestedEnd releasing).2.ledger.Chain 3 [nestedLeaf.finish (.committed 7 none),
      (Txn.child 2 2 outerRoot .snapshot false none).finish (.committed 8 none), outerRoot] :=
    .child (by decide) rfl (.child (by decide) rfl (.root (by decide) rfl))
  have hvisible : x = .visible := by
    rw [hiff, hk.unique hchain]
    exact ⟨by decide, fun _ => by decide, fun hno => absurd (hno outerRoot) (by decide)⟩
  exact ⟨f, s, hl, hvisible ▸ hx⟩

/-- What was written under a savepoint that is still open at the commit is hidden from the outer
transaction, although nothing was rolled back. -/
theorem nested_work_hidden :
    ∃ k f s, Reach {} World.empty outerWorld ∧
      (activateNested {} outerRoot false none).exec (ofName {} "nested", outerWorld.services) =
        (.ok (), nestedStart) ∧
      (work {} [.savepoint "a"] nestedStart).1.leaf? = some nestedLeaf ∧
      (commit {}).exec (work {} [.savepoint "a"] nestedStart) =
        (.ok (some 4), nestedEnd [.savepoint "a"]) ∧
      (nestedEnd [.savepoint "a"]).2.ledger.Chain 3 k ∧ (∀ t ∈ k, t.state ≠ .rolledBack) ∧
      (load outerRoot none 64).exec (nestedEnd [.savepoint "a"]).2 = (.ok f, s) ∧
      ((classify nestedVersion).exec (f, s)).1 = .ok .hidden :=
  ⟨[nestedLeaf, (Txn.child 2 2 outerRoot .snapshot false none).finish (.committed 4 none),
      outerRoot], _, _, reach_outerWorld, nestedStart_eq, rfl, rfl,
    .child (by decide) rfl (.child (by decide) rfl (.root (by decide) rfl)), by decide, rfl, rfl⟩

end Connection

end NestedTxn
