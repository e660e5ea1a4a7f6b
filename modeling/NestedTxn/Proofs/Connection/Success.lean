import NestedTxn.Proofs.Connection.Perched
import NestedTxn.Proofs.Lifecycle.Success

/-!
# When the steps of a connection succeed

While the ledger answers, the clock has a reading and ids are new, a step of a seated connection
does what it is for. Where a perched one will do, that is all that is asked for.

* `exec_ensureActive_idle`: an idle connection begins a root;
* `exec_pushChild`: a child of the leaf is pushed, unless the stack is too high
  (`exec_pushChild_refused`);
* `exec_dropTop_commit`, `exec_dropTop_rollback`, `exec_dropAll`: an entry is ended;
* `exec_elevateEntries`: every entry can be elevated.
-/

namespace NestedTxn

namespace Connection

open Ledger Services

variable {max : Nat} {config : Config} {p : Connection × Services} {e : Savepoint}
  {rest : List Savepoint} {ts : Timestamp}

theorem exec_ensureActive_closed (h : p.1.phase = .closed) :
    (ensureActive config).exec p = (.error .closed, p) := by
  rw [ensureActive, Act.exec_bind_ok (Act.exec_get p), h]
  rfl

theorem exec_ensureActive_active (h : p.1.phase = .active) :
    (ensureActive config).exec p = (.ok (), p) := by
  rw [ensureActive, Act.exec_bind_ok (Act.exec_get p), h]
  rfl

/-- An idle connection begins a root. -/
theorem exec_ensureActive_idle (config : Config) (h : p.1.phase = .idle)
    (hup : p.2.ledger.switch.Up)
    (hr : p.2.clock.reading p.2.clock.taken = some ts) (hf : p.2.ledger.find? ts = none) :
    ∃ s', (ensureActive config).exec p =
        (.ok (), { p.1.push p.1.name (.root ts ts config.defaultIsolation) with phase := .active },
          s') ∧
      p.2.Records (p.2.ledger.insert (.root ts ts config.defaultIsolation)) s' ∧
      s'.clock = p.2.ticked.clock := by
  obtain ⟨s', hx, hs, hc⟩ := Lifecycle.beginRoot_ok hup hr hf config.defaultIsolation
  refine ⟨s', ?_, hs, hc⟩
  rw [ensureActive, Act.exec_bind_ok (Act.exec_get p), h]
  simp [Act.exec_bind, Lifecycle.beginDefault, hx]

theorem exec_find_some {name : String} {n : Nat} (hp : p.1.phase ≠ .closed)
    (h : below? name p.1.stack = some n) : (find name).exec p = (.ok n, p) := by
  rw [find, Act.exec_bind_ok (Act.exec_get p)]
  dsimp only
  rw [if_neg hp, h]
  rfl

theorem exec_find_none {name : String} (h : below? name p.1.stack = none) :
    ∃ e, (find name).exec p = (.error e, p) := by
  rw [find, Act.exec_bind_ok (Act.exec_get p)]
  dsimp only
  split
  · exact ⟨_, rfl⟩
  · rw [h]
    exact ⟨_, rfl⟩

/-! ## Entries that come -/

section

variable (hst : p.1.stack = e :: rest) (ha : e.txn.state = .active)
  (hd : e.txn.depth < config.maxAncestorDepth) (hup : p.2.ledger.switch.Up)
  (hr : p.2.clock.reading p.2.clock.taken = some ts) (hf : p.2.ledger.find? ts = none)
include hst ha hd hup hr hf

/-- A child of a leaf that is active and not too deep is pushed. -/
theorem exec_pushChild_leaf (name : String) :
    ∃ s', (pushChild config name).exec p =
        (.ok (), p.1.push name (.child ts ts e.txn e.txn.isolation false none), s') ∧
      p.2.Records (p.2.ledger.insert (.child ts ts e.txn e.txn.isolation false none)) s' ∧
      s'.clock = p.2.ticked.clock := by
  obtain ⟨s', hx, hs', hclock⟩ := Lifecycle.beginChild_ok hup hr hf config ha hd
  refine ⟨s', ?_, hs', hclock⟩
  rw [pushChild, Act.exec_bind_ok (exec_leaf_cons hst)]
  simp [Act.exec_bind, hx]

theorem exec_pushChild_of_depth (name : String) :
    ∃ t s', (pushChild config name).exec p = (.ok (), p.1.push name t, s') ∧ t.id = ts ∧
      t.beginTimestamp = ts ∧ t.isolation = e.txn.isolation ∧
      p.2.Records (p.2.ledger.insert t) s' ∧ s'.clock = p.2.ticked.clock := by
  obtain ⟨s', hx, hs', hclock⟩ := exec_pushChild_leaf hst ha hd hup hr hf name
  exact ⟨_, s', hx, rfl, rfl, rfl, hs', hclock⟩

end

section

variable (hs : p.2.ledger.Sound max) (hc : p.1.Seated p.2.ledger) (hst : p.1.stack = e :: rest)
include hs hc hst

/-- The leaf is as deep as there are entries below it. -/
theorem Seated.depth_leaf : e.txn.depth.toNat = rest.length := by
  have hstack := hc.stacked
  rw [hst] at hstack
  obtain ⟨t, k, hk, hb, hkb⟩ := hstack.chain
  have hlen := congrArg List.length hkb
  simp only [List.length_map] at hlen
  rw [← hlen, hk.length_eq hs, Txn.depth_of_origin (Txn.origin_of_bare hb)]

/-- A child of the leaf is pushed. -/
theorem exec_pushChild (hup : p.2.ledger.switch.Up)
    (hr : p.2.clock.reading p.2.clock.taken = some ts) (hf : p.2.ledger.find? ts = none)
    (hd : rest.length < config.maxAncestorDepth.toNat) (name : String) :
    ∃ t s', (pushChild config name).exec p = (.ok (), p.1.push name t, s') ∧ t.id = ts ∧
      t.beginTimestamp = ts ∧ t.isolation = e.txn.isolation ∧
      p.2.Records (p.2.ledger.insert t) s' ∧ s'.clock = p.2.ticked.clock := by
  have ha : e.txn.state = .active := hc.stacked.state (by simp [hst])
  have hlt : e.txn.depth < config.maxAncestorDepth := by
    rw [UInt64.lt_iff_toNat_lt, hc.depth_leaf hs hst]
    exact hd
  exact exec_pushChild_of_depth hst ha hlt hup hr hf name

/-- A stack that is too high does not grow. -/
theorem exec_pushChild_refused (hd : config.maxAncestorDepth.toNat ≤ rest.length) (name : String) :
    (pushChild config name).exec p =
      (.error (.nestingTooDeep e.txn.id config.maxAncestorDepth), p) := by
  have ha : e.txn.state = .active := hc.stacked.state (by simp [hst])
  have hle : config.maxAncestorDepth ≤ e.txn.depth := by
    rw [UInt64.le_iff_toNat_le, hc.depth_leaf hs hst]
    exact hd
  rw [pushChild, Act.exec_bind_ok (exec_leaf_cons hst)]
  simp [Act.exec_bind, Lifecycle.beginChild_refused config ha hle]

end

/-! ## Entries that go -/

section

variable (hc : p.1.Seated p.2.ledger) (hup : p.2.ledger.switch.Up)
include hc hup

/-- The leaf is committed, and leaves the stack. -/
theorem exec_dropTop_commit (hst : p.1.stack = e :: rest)
    (hr : p.2.clock.reading p.2.clock.taken = some ts)
    (hmax : 0 < config.maxAncestorDepth.toNat) :
    ∃ u globalTs s', (dropTop fun t => discard (Lifecycle.commit config t)).exec p =
        (.ok (), { p.1 with stack := rest }, s') ∧ p.2.ledger.find? e.txn.id = some u ∧
      p.2.Records (p.2.ledger.replace (u.finish (.committed ts globalTs))) s' ∧
      s'.clock = p.2.ticked.clock := by
  have hstack := hc.stacked
  rw [hst] at hstack
  have ha := hstack.state (List.mem_cons_self ..)
  obtain ⟨u, hu, hb⟩ := hstack.find? (List.mem_cons_self ..)
  obtain ⟨g, s', hx, hs', hclock⟩ := Lifecycle.commit_ok hup ha hu ((Txn.state_of_bare hb).trans ha)
    hr hmax fun q hq => by
      -- the parent is the next entry
      cases hstack with
      | cons _ _ _ hp hrest =>
        rw [hp] at hq
        obtain ⟨d, hd, rfl⟩ := Option.map_eq_some_iff.1 hq
        have hmem := List.mem_of_head? hd
        obtain ⟨v, hv, hvb⟩ := hrest.find? hmem
        exact ⟨v, hv, (Txn.state_of_bare hvb).trans (hrest.state hmem)⟩
  refine ⟨u, g, s', ?_, hu, hs', hclock⟩
  rw [dropTop, Act.exec_bind_ok (exec_leaf_cons hst)]
  simp [Act.exec_bind, Act.exec_discard, Except.map, hx, pop, hst]

omit hc in
/-- The leaf is rolled back, and leaves the stack. -/
theorem exec_dropTop_rollback (hp : p.1.Perched p.2.ledger) (hst : p.1.stack = e :: rest) :
    ∃ u s', (dropTop Lifecycle.rollback).exec p = (.ok (), { p.1 with stack := rest }, s') ∧
      p.2.ledger.find? e.txn.id = some u ∧
      p.2.Records (p.2.ledger.replace (u.finish .rolledBack)) s' ∧ s'.clock = p.2.clock := by
  have hmem : e ∈ p.1.stack := by simp [hst]
  obtain ⟨u, hu, _⟩ := hp.found e hmem
  obtain ⟨s', hx, hs', hclock⟩ := Lifecycle.rollback_ok hup (hp.active e hmem) hu
    (hp.record_active hmem hu)
  refine ⟨u, s', ?_, hu, hs', hclock⟩
  rw [dropTop, Act.exec_bind_ok (exec_leaf_cons hst)]
  simp [Act.exec_bind, hx, pop, hst]

/-- The bottom entry is a root: nothing is asked about its ancestors. -/
theorem exec_dropAll (hst : p.1.stack.getLast? = some e)
    (hr : p.2.clock.reading p.2.clock.taken = some ts)
    (hmax : 0 < config.maxAncestorDepth.toNat) :
    ∃ u globalTs s', (dropAll config e.txn).exec p =
        (.ok ts, { p.1 with stack := [], phase := .idle }, s') ∧
      p.2.ledger.find? e.txn.id = some u ∧ u.parent = none ∧
      p.2.Records (p.2.ledger.replace (u.finish (.committed ts globalTs))) s' ∧
      s'.clock = p.2.ticked.clock := by
  have hmem := List.mem_of_getLast? hst
  have ha := hc.stacked.state hmem
  obtain ⟨u, hu, hb⟩ := hc.stacked.find? hmem
  have hroot : e.txn.parent = none := hc.stacked.parent_getLast? hst
  obtain ⟨g, s', hx, hs', hclock⟩ := Lifecycle.commit_ok hup ha hu ((Txn.state_of_bare hb).trans ha)
    hr hmax fun q hq => by
      rw [hroot] at hq
      cases hq
  refine ⟨u, g, s', ?_, hu, hc.stacked.root_getLast? hst hu, hs', hclock⟩
  simp [dropAll, Act.exec_bind, Act.exec_map, Except.map, hx]

end

/-! ## Elevation -/

/-- The entries of a stack can be elevated. -/
theorem elevateStack_ok (config : Config) (table : Table) {st : List Savepoint} {s : Services}
    (hup : s.ledger.switch.Up) (h : s.ledger.Stacked st) :
    ∃ st' s', (elevateStack config table st).exec s = (.ok (st', .ok (st'.head?.map (·.txn))), s') ∧
      ∀ e ∈ st'.head?, e.txn.writableFor table = true := by
  induction st with
  | nil => exact ⟨[], s, rfl, fun _ h => by cases h⟩
  | cons e rest ih =>
    obtain ⟨rest', s₁, hx, hw⟩ := ih h.tail
    obtain ⟨_, _, _, hx', hr, hk⟩ := elevateStack_kept config table rest s
    rw [hx] at hx'
    cases hx'
    have hb := bare_of_kept (fun _ => h.tail.find?) hr hk
    obtain ⟨t, ht, htb⟩ := h.find? (List.mem_cons_self ..)
    obtain ⟨u, hu, hub⟩ := hr.find? ht
    have hua : u.state = .active :=
      (Txn.state_of_bare (hub.trans htb)).trans (h.state (List.mem_cons_self ..))
    have hp : e.txn.parent = none ∨ (rest'.head?.map (·.txn)).any
        (fun p => e.txn.parent = some p.id && p.writableFor table) := by
      cases h with
      | cons _ _ _ hp _ =>
        have hids := congrArg (fun st => st.head?.map (·.txn.id)) hb
        simp only [List.head?_map, Option.map_map, Function.comp_def, Savepoint.bare,
          Txn.bare_id] at hids
        rw [hp, ← hids]
        cases hh : rest'.head? with
        | none => exact .inl rfl
        | some d => simp [hw d (by rw [hh]; rfl)]
    obtain ⟨t', s₂, hy⟩ := Lifecycle.elevateUnder_ok (hr.up hup) (h.state (List.mem_cons_self ..)) hu
      hua config table hp
    refine ⟨{ e with txn := t' } :: rest', s₂, ?_, fun d hd => ?_⟩
    · simp [elevateStack, Act.exec_bind, hx, hy]
    · cases hd
      exact (Lifecycle.elevateUnder_elevated hy).covers

/-- The entries of a seated connection can be elevated. -/
theorem exec_elevateEntries (config : Config) (table : Table) (hc : p.1.Seated p.2.ledger)
    (hup : p.2.ledger.switch.Up) :
    ∃ st' s', (elevateEntries config table).exec p = (.ok (), { p.1 with stack := st' }, s') ∧
      p.2.Regrants s' ∧ st'.map Savepoint.bare = p.1.stack.map Savepoint.bare := by
  obtain ⟨st', s', hx, _⟩ := elevateStack_ok config table hup hc.stacked
  obtain ⟨_, _, _, hx', hr, hk⟩ := elevateStack_kept config table p.1.stack p.2
  rw [hx] at hx'
  cases hx'
  refine ⟨st', s', ?_, hr, bare_of_kept (fun _ => hc.stacked.find?) hr hk⟩
  simp [elevateEntries, Act.exec_bind, hx]

end Connection

end NestedTxn
