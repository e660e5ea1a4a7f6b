import NestedTxn.Proofs.Connection.Stepwise
import NestedTxn.Proofs.Lifecycle.Timestamps

/-!
# What the calls of a connection consist of

* `Connection.Shift config p p'`: one change of a connection and of the records, and all that it can
  be, whatever is on the stack and whatever the clock and the ledger answer: the stack stays, its
  entries are elevated, a root or a child is pushed, or the top entry is dropped.
* `Connection.Cleared config p p'`: the bottom entry is committed, and the stack is cleared.
* `Connection.Shifts`: any number of shifts. Every call but a commit is that, also where it fails
  (`setSavepoint_shifts` and so on); `commit_cases` says what a commit is.
* `Connection.Changes`: either of the two. What it newly dates was dated on the way
  (`Changes.dated`).
-/

namespace NestedTxn

/-- What an entry may have become by an elevation: it stays, or is the record up to its
destination. -/
structure Savepoint.Kept (l : Ledger) (e e' : Savepoint) : Prop where
  name : e'.name = e.name
  txn : e'.txn = e.txn ∨ ∃ u, l.find? e.txn.id = some u ∧ u.bare = e'.txn.bare

namespace Connection

open Services

/-- One change of a connection and of the records. -/
inductive Shift (config : Config) : Connection × Services → Connection × Services → Prop
  /-- The stack and the records stay. -/
  | stay {c c' : Connection} {s s' : Services} :
      c'.stack = c.stack → (c'.phase ≠ .active → c.phase ≠ .active ∨ c.stack = []) →
      s.Records s.ledger s' → Shift config (c, s) (c', s')
  /-- The entries are elevated. -/
  | regrant {c : Connection} {s s' : Services} {st : List Savepoint} :
      s.Regrants s' → List.Forall₂ (Savepoint.Kept s'.ledger) c.stack st →
      Shift config (c, s) ({ c with stack := st }, s')
  /-- An idle connection begins a root. -/
  | root {c : Connection} {s s' : Services} {ts : Timestamp} :
      c.phase = .idle → s.clock.reading s.clock.taken = some ts → s.ledger.find? ts = none →
      s.Records (s.ledger.insert (.root ts ts config.defaultIsolation)) s' →
      s'.clock = s.ticked.clock →
      Shift config (c, s)
        ({ c.push c.name (.root ts ts config.defaultIsolation) with phase := .active }, s')
  /-- A child of the top entry begins. -/
  | child {c : Connection} {s s' : Services} {e : Savepoint} {rest : List Savepoint}
      {ts : Timestamp} {d : Option Destination} (name : String) :
      c.stack = e :: rest → e.txn.state = .active → e.txn.depth < config.maxAncestorDepth →
      s.clock.reading s.clock.taken = some ts → s.ledger.find? ts = none →
      s.Records (s.ledger.insert (.child ts ts e.txn e.txn.isolation false d)) s' →
      s'.clock = s.ticked.clock →
      Shift config (c, s) (c.push name (.child ts ts e.txn e.txn.isolation false d), s')
  /-- The top entry is finished. -/
  | drop {c : Connection} {s s' : Services} {e : Savepoint} {rest : List Savepoint} {u : Txn}
      {o : Outcome} :
      c.stack = e :: rest → s.ledger.find? e.txn.id = some u → u.state = .active →
      (∀ ts globalTs, o = .committed ts globalTs → s.Drawn s' ts) →
      s.Records (s.ledger.replace (u.finish o)) s' →
      Shift config (c, s) ({ c with stack := rest }, s')
  /-- The top entry was finished before. -/
  | skip {c : Connection} {s s' : Services} {e : Savepoint} {rest : List Savepoint} :
      c.stack = e :: rest →
      (e.txn.state ≠ .active ∨ ∃ u, s.ledger.find? e.txn.id = some u ∧ u.state ≠ .active) →
      s.Records s.ledger s' → Shift config (c, s) ({ c with stack := rest }, s')

/-- The bottom entry is committed, and the stack is cleared. -/
structure Cleared (p p' : Connection × Services) (e : Savepoint) (u : Txn) (ts : Timestamp)
    (globalTs : Option Timestamp) : Prop where
  bottom : p.1.stack.getLast? = some e
  found : p.2.ledger.find? e.txn.id = some u
  active : u.state = .active
  drawn : p.2.Drawn p'.2 ts
  records : p.2.Records (p.2.ledger.replace (u.finish (.committed ts globalTs))) p'.2
  connection : p'.1 = { p.1 with stack := [], phase := .idle }

/-- Any number of changes. -/
def Shifts (config : Config) : Connection × Services → Connection × Services → Prop :=
  Relation.ReflTransGen (Shift config)

variable {config : Config} {p p' : Connection × Services}

theorem Shifts.refl (config : Config) (p : Connection × Services) : Shifts config p p :=
  Relation.ReflTransGen.refl

theorem Shifts.trans (config : Config) (p p' p'' : Connection × Services)
    (h : Shifts config p p') (h' : Shifts config p' p'') : Shifts config p p'' :=
  Relation.ReflTransGen.trans h h'

theorem Shift.shifts (h : Shift config p p') : Shifts config p p' := .single h

/-- What a call of a connection comes to. -/
def Changes (config : Config) (p p' : Connection × Services) : Prop :=
  Shifts config p p' ∨ ∃ e u ts globalTs, Cleared p p' e u ts globalTs

/-! ## Timestamps -/

theorem Shift.spares (h : Shift config p p') : p.2.Spares p'.2 := by
  cases h with
  | stay _ _ hs | skip _ _ hs => exact hs.toSpares
  | regrant hs _ => exact hs.toSpares
  | root _ _ _ hs _ | child _ _ _ _ _ _ hs _ => exact hs.toSpares
  | drop _ _ _ _ hs => exact hs.toSpares

theorem Shifts.spares (h : Shifts config p p') : p.2.Spares p'.2 := by
  induction h with
  | refl => exact .refl _
  | tail _ step ih => exact ih.trans step.spares

theorem Shift.dated (h : Shift config p p') : p.2.Dated p'.2 := by
  cases h with
  | stay _ _ hs => exact hs.dated
  | regrant hs _ => exact hs.dated
  | root _ hr hf hs hc => exact dated_insert hr hc rfl hf hs
  | child _ _ _ _ hr hf hs hc => exact dated_insert hr hc rfl hf hs
  | drop _ hu ha hd hs =>
    rw [← Ledger.id_of_find? hu] at hu
    exact dated_finish hu ha hd hs
  | skip _ _ hs => exact hs.dated

theorem Shifts.dated (h : Shifts config p p') : p.2.Dated p'.2 := by
  induction h with
  | refl => exact .refl _
  | tail _ step ih => exact ih.trans _ _ _ step.dated

theorem Cleared.dated {e : Savepoint} {u : Txn} {ts : Timestamp} {globalTs : Option Timestamp}
    (h : Cleared p p' e u ts globalTs) : p.2.Dated p'.2 := by
  have hu := h.found
  rw [← Ledger.id_of_find? hu] at hu
  refine dated_finish hu h.active (fun ts' _ ho => ?_) h.records
  cases ho
  exact h.drawn

theorem Changes.spares (h : Changes config p p') : p.2.Spares p'.2 := by
  rcases h with h | ⟨e, u, ts, globalTs, h⟩
  · exact h.spares
  · exact h.records.toSpares

theorem Changes.dated (h : Changes config p p') : p.2.Dated p'.2 := by
  rcases h with h | ⟨e, u, ts, globalTs, h⟩
  · exact h.dated
  · exact h.dated

/-! ## Steps of calls -/

/-- The stack stays. -/
theorem shift_of_stack {c : Connection} {s : Services} (c' : Connection)
    (hst : c'.stack = c.stack) (hph : c'.phase ≠ .active → c.phase ≠ .active ∨ c.stack = []) :
    Shifts config (c, s) (c', s) :=
  (Shift.stay hst hph (.refl s)).shifts

/-- A call that failed, or only looked. -/
theorem shift_of_records {c : Connection} {s s' : Services} (h : s.Records s.ledger s') :
    Shifts config (c, s) (c, s') :=
  (Shift.stay rfl .inl h).shifts

/-- An active connection stays as it is, and an idle one begins a root. -/
theorem ensureActive_cases (config : Config) (p : Connection × Services) :
    (∃ err s', (ensureActive config).exec p = (.error err, p.1, s') ∧
        p.2.Records p.2.ledger s') ∨
      (p.1.phase = .active ∧ (ensureActive config).exec p = (.ok (), p)) ∨
      ∃ ts s', p.1.phase = .idle ∧ p.2.clock.reading p.2.clock.taken = some ts ∧
        p.2.ledger.find? ts = none ∧
        (ensureActive config).exec p =
          (.ok (), { p.1.push p.1.name (.root ts ts config.defaultIsolation) with phase := .active },
            s') ∧
        p.2.Records (p.2.ledger.insert (.root ts ts config.defaultIsolation)) s' ∧
        s'.clock = p.2.ticked.clock := by
  rw [ensureActive, Act.exec_bind_ok (Act.exec_get p)]
  cases hp : p.1.phase with
  | closed => exact .inl ⟨.closed, p.2, rfl, .refl p.2⟩
  | active => exact .inr (.inl ⟨rfl, rfl⟩)
  | idle =>
    rcases Lifecycle.beginRoot_cases config.defaultIsolation p.2 with
      ⟨err, s', hx, hs⟩ | ⟨ts, s', hr, hf, hx, hs, hc⟩
    · refine .inl ⟨err, s', ?_, hs⟩
      simp [Act.exec_bind, Lifecycle.beginDefault, hx]
    · refine .inr (.inr ⟨ts, s', rfl, hr, hf, ?_, hs, hc⟩)
      simp [Act.exec_bind, Lifecycle.beginDefault, hx]

/-- An idle connection begins a root. -/
theorem ensureActive_shifts (config : Config) :
    Act.Keeps (Shifts config) (ensureActive config) := by
  intro p
  rcases ensureActive_cases config p with
    ⟨err, s', hx, hs⟩ | ⟨_, hx⟩ | ⟨ts, s', hp, hr, hf, hx, hs, hc⟩ <;> rw [hx]
  · exact shift_of_records hs
  · exact .refl _ p
  · exact (Shift.root hp hr hf hs hc).shifts

/-- What is pushed is a child of the top entry. -/
theorem pushChild_cases (config : Config) (name : String) (p : Connection × Services) :
    (∃ err s', (pushChild config name).exec p = (.error err, p.1, s') ∧
        p.2.Records p.2.ledger s') ∨
      ∃ e rest ts d s', p.1.stack = e :: rest ∧ e.txn.state = .active ∧
        e.txn.depth < config.maxAncestorDepth ∧
        p.2.clock.reading p.2.clock.taken = some ts ∧ p.2.ledger.find? ts = none ∧
        (pushChild config name).exec p =
          (.ok (), p.1.push name (.child ts ts e.txn e.txn.isolation false d), s') ∧
        p.2.Records (p.2.ledger.insert (.child ts ts e.txn e.txn.isolation false d)) s' ∧
        s'.clock = p.2.ticked.clock := by
  rw [pushChild]
  cases hst : p.1.stack with
  | nil =>
    rw [Act.exec_bind_error (exec_leaf_nil hst)]
    exact .inl ⟨.closed, p.2, rfl, .refl p.2⟩
  | cons e rest =>
    rw [Act.exec_bind_ok (exec_leaf_cons hst)]
    rcases Lifecycle.beginChild_cases config e.txn none false none p.2 with
      ⟨err, s', hx, hs⟩ | ⟨ts, d, s', hr, hf, ha, hd, hx, hs, hc⟩
    · refine .inl ⟨err, s', ?_, hs⟩
      simp [Act.exec_bind, hx]
    · refine .inr ⟨e, rest, ts, d, s', rfl, ha, hd, hr, hf, ?_, hs, hc⟩
      simp [Act.exec_bind, hx]

/-- A child of the top entry begins. -/
theorem pushChild_shifts (config : Config) (name : String) :
    Act.Keeps (Shifts config) (pushChild config name) := by
  intro p
  rcases pushChild_cases config name p with
    ⟨err, s', hx, hs⟩ | ⟨e, rest, ts, d, s', hst, ha, hd, hr, hf, hx, hs, hc⟩ <;> rw [hx]
  · exact shift_of_records hs
  · exact (Shift.child name hst ha hd hr hf hs hc).shifts

/-- The ways in which `finish` ends a transaction, with what is known about its timestamp. -/
def Drops (finish : Txn → Act Services TxnError Unit) : Prop :=
  ∀ t s, (∃ e s', (finish t).exec s = (.error e, s') ∧ s.Records s.ledger s') ∨
    (∃ s', (finish t).exec s = (.ok (), s') ∧ s.Records s.ledger s' ∧
      (t.state ≠ .active ∨ ∃ u, s.ledger.find? t.id = some u ∧ u.state ≠ .active)) ∨
    ∃ o u s', s.ledger.find? t.id = some u ∧ u.state = .active ∧
      (finish t).exec s = (.ok (), s') ∧
      (∀ ts globalTs, o = .committed ts globalTs → s.Drawn s' ts) ∧
      s.Records (s.ledger.replace (u.finish o)) s'

theorem rollback_drops : Drops Lifecycle.rollback := by
  intro t s
  rcases Lifecycle.rollback_cases t s with
    ⟨e, s', he, hs⟩ | ⟨s', he, hs, hr⟩ | ⟨u, s', _, hu, ha, he, hs, _⟩
  · exact .inl ⟨e, s', he, hs.toRecords⟩
  · refine .inr (.inl ⟨s', he, hs.toRecords, hr.imp (fun h => ?_) fun h => ?_⟩)
    · rw [h]
      decide
    · obtain ⟨u, hu, hus⟩ := h
      exact ⟨u, hu, by rw [hus]; decide⟩
  · exact .inr (.inr ⟨.rolledBack, u, s', hu, ha, he, nofun, hs⟩)

theorem commit_drops (config : Config) : Drops fun t => discard (Lifecycle.commit config t) := by
  intro t s
  rcases Lifecycle.commit_cases config t s with
    ⟨e, s', he, hs⟩ | ⟨ts, g, u, s', hr, _, hu, ha, he, hs, hc⟩
  · exact .inl ⟨e, s', by rw [Act.exec_discard, he]; rfl, hs⟩
  · refine .inr (.inr ⟨.committed ts g, u, s', hu, ha, by rw [Act.exec_discard, he]; rfl,
      fun _ _ ho => ?_, hs⟩)
    cases ho
    exact ⟨s.clock.taken, Nat.le_refl _, by rw [hc]; exact Nat.lt_succ_self _, hr⟩

/-- The top entry is ended and leaves the stack. -/
theorem dropTop_shifts {finish : Txn → Act Services TxnError Unit} (hfin : Drops finish) :
    Act.Keeps (Shifts config) (dropTop finish) := by
  intro p
  rw [dropTop]
  cases hst : p.1.stack with
  | nil =>
    rw [Act.exec_bind_error (exec_leaf_nil hst)]
    exact .refl _ p
  | cons e rest =>
    have hpop : pop p.1 = { p.1 with stack := rest } := by rw [pop, hst, List.tail_cons]
    rw [Act.exec_bind_ok (exec_leaf_cons hst), Act.exec_bind, Act.exec_onSnd]
    rcases hfin e.txn p.2 with
      ⟨err, s', hx, hs⟩ | ⟨s', hx, hs, hdone⟩ | ⟨o, u, s', hu, ha, hx, hd, hs⟩
    · rw [hx]
      exact shift_of_records hs
    · simp only [hx, exec_alter, hpop]
      exact (Shift.skip hst hdone hs).shifts
    · simp only [hx, exec_alter, hpop]
      exact (Shift.drop hst hu ha hd hs).shifts

/-- The bottom entry is committed and the stack is cleared, unless the commit fails. -/
theorem dropAll_cases (config : Config) {p : Connection × Services} {bottom : Txn}
    (hb : p.1.bottom? = some bottom) :
    (∃ e s', (dropAll config bottom).exec p = (.error e, p.1, s') ∧ p.2.Records p.2.ledger s') ∨
      ∃ e u ts globalTs p', (dropAll config bottom).exec p = (.ok ts, p') ∧
        Cleared p p' e u ts globalTs := by
  obtain ⟨e, he, rfl⟩ := Option.map_eq_some_iff.1 hb
  simp only [dropAll, Act.exec_bind, Act.exec_onSnd]
  rcases Lifecycle.commit_cases config e.txn p.2 with
    ⟨err, s', hx, hs⟩ | ⟨ts, g, u, s', hr, _, hu, ha, hx, hs, hc⟩
  · rw [hx]
    exact .inl ⟨err, s', rfl, hs⟩
  · rw [hx]
    refine .inr ⟨e, u, ts, g, _, rfl, he, hu, ha, ?_, hs, rfl⟩
    exact ⟨p.2.clock.taken, Nat.le_refl _, by rw [hc]; exact Nat.lt_succ_self _, hr⟩

/-- Elevation widens destinations of entries, as far as it comes. -/
theorem elevateStack_kept (config : Config) (table : Table) (st : List Savepoint) (s : Services) :
    ∃ st' res s', (elevateStack config table st).exec s = (.ok (st', res), s') ∧ s.Regrants s' ∧
      List.Forall₂ (Savepoint.Kept s'.ledger) st st' := by
  induction st with
  | nil => exact ⟨[], _, s, rfl, .refl s, .nil⟩
  | cons e rest ih =>
    obtain ⟨rest', res, s₁, hx, hr, hk⟩ := ih
    rw [elevateStack, Act.exec_bind_ok hx]
    cases res with
    | error err => exact ⟨e :: rest', .error err, s₁, rfl, hr, .cons ⟨rfl, .inl rfl⟩ hk⟩
    | ok parent =>
      have hu := Lifecycle.elevateUnder_regrants config e.txn table parent s₁
      rcases hy : (Lifecycle.elevateUnder config e.txn table parent).exec s₁ with ⟨x, s₂⟩
      rw [hy] at hu
      -- what the entries below became is still recorded up to destinations
      have hk' : List.Forall₂ (Savepoint.Kept s₂.ledger) rest rest' := by
        refine hk.imp fun d d' hd => ⟨hd.name, hd.txn.imp_right fun h => ?_⟩
        obtain ⟨u, hfu, hb⟩ := h
        obtain ⟨v, hv, hvu⟩ := hu.find? hfu
        exact ⟨v, hv, hvu.trans hb⟩
      cases x with
      | error err =>
        refine ⟨e :: rest', .error err, s₂, ?_, hr.trans _ _ _ hu, .cons ⟨rfl, .inl rfl⟩ hk'⟩
        simp [Act.exec_bind, hy]
      | ok t =>
        refine ⟨{ e with txn := t } :: rest', .ok (some t), s₂, ?_, hr.trans _ _ _ hu,
          .cons ⟨rfl, (Lifecycle.elevateUnder_elevated hy).record.imp_right fun h => ⟨t, h, rfl⟩⟩
            hk'⟩
        simp [Act.exec_bind, hy]

theorem elevateEntries_shifts (config : Config) (table : Table) :
    Act.Keeps (Shifts config) (elevateEntries config table) := by
  intro p
  obtain ⟨st', res, s', hx, hr, hk⟩ := elevateStack_kept config table p.1.stack p.2
  rw [elevateEntries]
  simp only [Act.exec_bind, Act.exec_get, Act.exec_onSnd, hx, alter, Act.exec_modify]
  cases res <;> exact (Shift.regrant hr hk).shifts

/-- The steps of a connection are shifts. -/
theorem shifts_stepwise (config : Config) : Stepwise config (Shifts config) where
  refl := .refl config
  trans := .trans config
  report p e := shift_of_records (reported_looks p.2 e).toRecords
  suppress p on := shift_of_stack (p.1.suppress on) rfl .inl
  settle p := by
    refine shift_of_stack p.1.settle (settle_stack p.1) fun h => ?_
    rw [settle] at h
    split at h
    · next he => exact .inr (by simpa using he.1)
    · exact .inl h
  rest p phase hp := shift_of_stack { p.1 with phase } rfl fun _ => hp
  ensureActive := ensureActive_shifts config
  pushChild := pushChild_shifts config
  elevateEntries := elevateEntries_shifts config
  rollbackTop := dropTop_shifts rollback_drops
  commitTop := dropTop_shifts (commit_drops config)

/-! ## Calls -/

theorem trace_shifts (done : Bool) (call : ConnectionCall) (subject : String) :
    Act.Keeps (Shifts config) (trace done call subject) :=
  (shifts_stepwise config).trace done call subject

theorem leaf_shifts : Act.Keeps (Shifts config) leaf := (shifts_stepwise config).leaf

theorem heed_shifts (name : String) (on : Bool) : Act.Keeps (Shifts config) (heed name on) :=
  (shifts_stepwise config).heed name on

theorem find_shifts (name : String) : Act.Keeps (Shifts config) (find name) :=
  (shifts_stepwise config).find name

theorem unwindTo_shifts {finish : Txn → Act Services TxnError Unit} (hfin : Drops finish)
    (name : String) : Act.Keeps (Shifts config) (unwindTo name finish) :=
  (shifts_stepwise config).unwindTo (dropTop_shifts hfin) name

theorem setSavepoint_shifts (config : Config) (name : String) :
    Act.Keeps (Shifts config) (setSavepoint config name) :=
  (shifts_stepwise config).setSavepoint name

theorem releaseSavepoint_shifts (config : Config) (name : String) :
    Act.Keeps (Shifts config) (releaseSavepoint config name) :=
  (shifts_stepwise config).releaseSavepoint name

theorem rollbackTo_shifts (config : Config) (name : String) :
    Act.Keeps (Shifts config) (rollbackTo config name) :=
  (shifts_stepwise config).rollbackTo name

theorem elevate_shifts (config : Config) (table : Table) :
    Act.Keeps (Shifts config) (elevate config table) :=
  (shifts_stepwise config).elevate table

theorem activeTxn_shifts (config : Config) : Act.Keeps (Shifts config) (activeTxn config) :=
  (shifts_stepwise config).activeTxn

theorem abort_shifts (config : Config) : Act.Keeps (Shifts config) abort :=
  (shifts_stepwise config).abort

theorem close_shifts (config : Config) : Act.Keeps (Shifts config) close :=
  (shifts_stepwise config).close

/-- A commit fails, finds nothing to commit, or clears the stack. -/
theorem commit_cases (config : Config) (p : Connection × Services) :
    (∃ e s', (commit config).exec p = (.error e, p.1, s') ∧ p.2.Records p.2.ledger s') ∨
      (∃ c' s', (commit config).exec p = (.ok none, c', s') ∧
        (p.1.phase ≠ .active ∨ p.1.stack = []) ∧ c'.stack = p.1.stack ∧
        p.2.Records p.2.ledger s') ∨
      ∃ e u ts globalTs p', (commit config).exec p = (.ok (some ts), p') ∧
        Cleared p p' e u ts globalTs := by
  have hr := (reported_looks p.2 (.connection p.1 false .commit "")).toRecords
  rw [commit_eq, Act.exec_bind_ok (exec_trace _ _ _ p), Act.exec_bind_ok (Act.exec_get _)]
  cases hp : p.1.phase with
  | idle => exact .inr (.inl ⟨_, _, rfl, .inl nofun, rfl, hr.reported (.nothingToCommit p.1.name)⟩)
  | closed => exact .inl ⟨_, _, rfl, hr⟩
  | active =>
    dsimp only
    cases hb : p.1.bottom? with
    | none =>
      have hst : p.1.stack = [] := by simpa [bottom?] using hb
      exact .inr (.inl ⟨_, _, rfl, .inr hst, rfl, hr⟩)
    | some bottom =>
      rcases dropAll_cases config (p := (p.1, p.2.reported (.connection p.1 false .commit ""))) hb
        with ⟨err, s', hx, hs⟩ | ⟨e, u, ts, g, p', hx, hc⟩
      · rw [Act.exec_bind_error hx]
        exact .inl ⟨err, s', rfl, hr.toSpares.trans hs.toSpares, hs.txns⟩
      · rw [Act.exec_bind_ok hx]
        exact .inr (.inr ⟨e, u, ts, g, _, rfl, hc.bottom, hc.found, hc.active, hc.drawn,
          (hr.replace hc.records).reported _, hc.connection⟩)

theorem commit_changes (config : Config) : Act.Keeps (Changes config) (commit config) := by
  intro p
  rcases commit_cases config p with
    ⟨e, s', hx, hs⟩ | ⟨c', s', hx, hidle, hst, hs⟩ | ⟨e, u, ts, globalTs, p', hx, hc⟩
  · rw [hx]
    exact .inl (shift_of_records hs)
  · rw [hx]
    exact .inl (Shift.stay hst (fun _ => hidle) hs).shifts
  · rw [hx]
    exact .inr ⟨e, u, ts, globalTs, hc⟩

end Connection

end NestedTxn
