import NestedTxn.Lifecycle
import NestedTxn.Proofs.Act
import NestedTxn.Proofs.Ledger.Chain

/-!
# What the operations of the lifecycle can do

Each of `beginRoot`, `beginChild`, `grant`, `commit`, `rollback` changes at most one record: the
`…_cases` lemmas say which, and under which guard. A failed one changes none.

* `Services.Spares s s'`: rows, queues and readings are those of `s`, and a ledger that answers
  all calls to come still does.
* `Services.Records s l s'`: the same, and the records of `s'` are those of `l`.
-/

namespace NestedTxn

namespace Services

/-- From `s` to `s'` only the ledger, the counters and the log changed, and time went by. -/
structure Spares (s s' : Services) : Prop where
  rows : s'.rows = s.rows
  queues : s'.queues = s.queues
  turns : s'.turns = s.turns
  reading : s'.clock.reading = s.clock.reading
  taken : s.clock.taken ≤ s'.clock.taken
  up : s.ledger.switch.Up → s'.ledger.switch.Up

theorem Spares.refl (s : Services) : s.Spares s := ⟨rfl, rfl, rfl, rfl, Nat.le_refl _, id⟩

theorem Spares.trans {s s' s'' : Services} (h : s.Spares s') (h' : s'.Spares s'') :
    s.Spares s'' where
  rows := h'.rows.trans h.rows
  queues := h'.queues.trans h.queues
  turns := h'.turns.trans h.turns
  reading := h'.reading.trans h.reading
  taken := Nat.le_trans h.taken h'.taken
  up hu := h'.up (h.up hu)

/-- From `s` to `s'` the records became those of `l`, and nothing else changed that matters. -/
structure Records (s : Services) (l : Ledger) (s' : Services) : Prop extends s.Spares s' where
  txns : s'.ledger.txns = l.txns

theorem Records.find? {s s' : Services} {l : Ledger} (h : s.Records l s') (id : TxnId) :
    s'.ledger.find? id = l.find? id :=
  Ledger.find?_congr h.txns id

theorem Records.refl (s : Services) : s.Records s.ledger s := ⟨.refl s, rfl⟩

theorem records_ticked (s : Services) : s.Records s.ledger s.ticked :=
  ⟨⟨rfl, rfl, rfl, rfl, Nat.le_succ _, id⟩, rfl⟩

/-- A call of the ledger that failed or only looked. -/
theorem records_called (s : Services) : s.Records s.ledger (s.withLedger s.nextLedger) :=
  ⟨⟨rfl, rfl, rfl, rfl, Nat.le_refl _, Switch.Up.advance⟩, rfl⟩

/-- A call of the ledger that recorded a transaction. -/
theorem records_insert (s : Services) (t : Txn) :
    s.Records (s.ledger.insert t) (s.withLedger (s.nextLedger.insert t)) :=
  ⟨⟨rfl, rfl, rfl, rfl, Nat.le_refl _, Switch.Up.advance⟩, rfl⟩

/-- A call of the ledger that changed a record. -/
theorem records_replace (s : Services) (t : Txn) :
    s.Records (s.ledger.replace t) (s.withLedger (s.nextLedger.replace t)) :=
  ⟨⟨rfl, rfl, rfl, rfl, Nat.le_refl _, Switch.Up.advance⟩, rfl⟩

/-- Counting changes no record. -/
theorem Records.counted {s s' : Services} {l : Ledger} (h : s.Records l s') (c : Counter) :
    s.Records l (s'.counted c) :=
  ⟨⟨h.rows, h.queues, h.turns, h.reading, h.taken, h.up⟩, h.txns⟩

/-- Reporting changes no record. -/
theorem Records.reported {s s' : Services} {l : Ledger} (h : s.Records l s') (e : Event) :
    s.Records l (s'.reported e) :=
  ⟨⟨h.rows, h.queues, h.turns, h.reading, h.taken, h.up⟩, h.txns⟩

/-- What time goes by before changes nothing. -/
theorem Records.after_tick {s s' : Services} {l : Ledger} (h : s.ticked.Records l s') :
    s.Records l s' :=
  ⟨(records_ticked s).toSpares.trans h.toSpares, h.txns⟩

/-- A record that changes after a call that changed none. -/
theorem Records.replace {s s' s'' : Services} {t : Txn} (h : s.Records s.ledger s')
    (h' : s'.Records (s'.ledger.replace t) s'') : s.Records (s.ledger.replace t) s'' :=
  ⟨h.toSpares.trans h'.toSpares, by rw [h'.txns, Ledger.replace, h.txns, Ledger.replace]⟩

/-- From `s` to `s'` no record changed and no time went by. -/
structure Looks (s s' : Services) : Prop extends s.Records s.ledger s' where
  clock : s'.clock = s.clock

theorem Looks.refl (s : Services) : s.Looks s := ⟨.refl s, rfl⟩

theorem Looks.trans (s s' s'' : Services) (h : s.Looks s') (h' : s'.Looks s'') : s.Looks s'' :=
  ⟨⟨h.toSpares.trans h'.toSpares, h'.txns.trans h.txns⟩, h'.clock.trans h.clock⟩

theorem looks_called (s : Services) : s.Looks (s.withLedger s.nextLedger) :=
  ⟨records_called s, rfl⟩

theorem counted_looks (s : Services) (c : Counter) : s.Looks (s.counted c) :=
  ⟨(Records.refl s).counted c, rfl⟩

theorem reported_looks (s : Services) (e : Event) : s.Looks (s.reported e) :=
  ⟨(Records.refl s).reported e, rfl⟩

theorem exec_fetch_cases (id : TxnId) (s : Services) :
    (onLedger (Ledger.fetch id)).exec s =
        (.error (.unavailable .ledger), s.withLedger s.nextLedger) ∨
      (onLedger (Ledger.fetch id)).exec s =
        (.ok (s.ledger.find? id), s.withLedger s.nextLedger) := by
  rw [exec_onLedger, Ledger.exec_fetch]
  split
  · exact .inr rfl
  · exact .inl rfl

theorem exec_create_cases (t : Txn) (s : Services) :
    (∃ e, (onLedger (Ledger.create t)).exec s = (.error e, s.withLedger s.nextLedger)) ∨
      s.ledger.find? t.id = none ∧
        (onLedger (Ledger.create t)).exec s = (.ok (), s.withLedger (s.nextLedger.insert t)) := by
  rw [exec_onLedger, Ledger.exec_create]
  split
  · cases hf : s.ledger.find? t.id with
    | none => exact .inr ⟨rfl, by simp [hf]⟩
    | some u => exact .inl ⟨.alreadyExists t.id, by simp [hf]⟩
  · exact .inl ⟨_, rfl⟩

theorem exec_update_cases (id : TxnId) (change : Txn → Txn) (s : Services) :
    (∃ e, (onLedger (Ledger.update id change)).exec s = (.error e, s.withLedger s.nextLedger) ∧
        ∀ i state, e = .alreadyTerminal i state →
          ∃ u, s.ledger.find? id = some u ∧ u.state = state) ∨
      ∃ u, s.ledger.find? id = some u ∧ u.state = .active ∧
        (onLedger (Ledger.update id change)).exec s =
          (.ok (change u), s.withLedger (s.nextLedger.replace (change u))) := by
  rw [exec_onLedger, Ledger.exec_update]
  split
  · cases hf : s.ledger.find? id with
    | none =>
      refine .inl ⟨.notFound id, by simp [hf], ?_⟩
      intro i state h
      cases h
    | some u =>
      cases ht : u.state.isTerminal with
      | false => exact .inr ⟨u, rfl, Txn.isTerminal_eq_false.1 ht, by simp [hf, ht]⟩
      | true =>
        refine .inl ⟨.alreadyTerminal id u.state, by simp [hf, ht], ?_⟩
        intro i state h
        cases h
        exact ⟨u, rfl, rfl⟩
  · refine .inl ⟨.unavailable .ledger, rfl, ?_⟩
    intro i state h
    cases h

end Services

namespace Lifecycle

open Services

theorem exec_demandActive (t : Txn) (s : Services) :
    (demandActive t).exec s =
      if t.state.isTerminal then (.error (.alreadyTerminal t.id t.state), s) else (.ok (), s) := by
  cases h : t.state.isTerminal <;> simp [demandActive, h]

/-- A new root has an id that was not in use. -/
theorem beginRoot_cases (isolation : Isolation) (s : Services) :
    (∃ e s', (beginRoot isolation).exec s = (.error e, s') ∧ s.Records s.ledger s') ∨
      ∃ ts s', s.clock.reading s.clock.taken = some ts ∧ s.ledger.find? ts = none ∧
        (beginRoot isolation).exec s = (.ok (.root ts ts isolation), s') ∧
        s.Records (s.ledger.insert (.root ts ts isolation)) s' ∧ s'.clock = s.ticked.clock := by
  cases hr : s.clock.reading s.clock.taken with
  | none =>
    refine .inl ⟨.unavailable .clock, s.ticked, ?_, records_ticked s⟩
    simp [beginRoot, Act.exec_bind, exec_tick_none hr]
  | some ts =>
    rcases exec_create_cases (.root ts ts isolation) s.ticked with ⟨e, he⟩ | ⟨hf, he⟩
    · refine .inl ⟨e, _, ?_, (records_called s.ticked).after_tick⟩
      simp [beginRoot, Act.exec_bind, exec_tick_some hr, he]
    · have hs := ((records_insert s.ticked (.root ts ts isolation)).counted .begun).reported
        (.begunRoot (.root ts ts isolation))
      refine .inr ⟨ts, _, rfl, hf, ?_, hs.after_tick, rfl⟩
      simp [beginRoot, Act.exec_bind, Act.exec_map, Except.map, exec_tick_some hr, he]

/-- A new child has an id that was not in use, and its parent, as given, is active and not too
deep. -/
theorem beginChild_cases (config : Config) (parent : Txn) (isolation : Option Isolation)
    (additive : Bool) (table : Option Table) (s : Services) :
    (∃ e s', (beginChild config parent isolation additive table).exec s = (.error e, s') ∧
        s.Records s.ledger s') ∨
      ∃ ts destination s', s.clock.reading s.clock.taken = some ts ∧ s.ledger.find? ts = none ∧
        parent.state = .active ∧ parent.depth < config.maxAncestorDepth ∧
        (beginChild config parent isolation additive table).exec s =
          (.ok (.child ts ts parent (isolation.getD parent.isolation) additive destination), s') ∧
        s.Records (s.ledger.insert
          (.child ts ts parent (isolation.getD parent.isolation) additive destination)) s' ∧
        s'.clock = s.ticked.clock := by
  cases ht : parent.state.isTerminal with
  | true =>
    refine .inl ⟨.alreadyTerminal parent.id parent.state, s, ?_, .refl s⟩
    simp [beginChild, Act.exec_bind, exec_demandActive, ht]
  | false =>
    by_cases hd : config.maxAncestorDepth ≤ parent.depth
    · refine .inl ⟨.nestingTooDeep parent.id config.maxAncestorDepth, s, ?_, .refl s⟩
      simp [beginChild, Act.exec_bind, exec_demandActive, ht, hd]
    · cases hr : s.clock.reading s.clock.taken with
      | none =>
        refine .inl ⟨.unavailable .clock, s.ticked, ?_, records_ticked s⟩
        simp [beginChild, Act.exec_bind, exec_demandActive, ht, hd, exec_tick_none hr]
      | some ts =>
        let t := Txn.child ts ts parent (isolation.getD parent.isolation) additive
          ((table.filter parent.writableFor).map Destination.of)
        rcases exec_create_cases t s.ticked with ⟨e, he⟩ | ⟨hf, he⟩
        · refine .inl ⟨e, _, ?_, (records_called s.ticked).after_tick⟩
          simp [beginChild, Act.exec_bind, exec_demandActive, ht, hd, exec_tick_some hr, t, he]
        · have hs := ((records_insert s.ticked t).counted .begun).reported (.begunChild t)
          refine .inr ⟨ts, _, _, rfl, hf, Txn.isTerminal_eq_false.1 ht, UInt64.not_le.1 hd, ?_,
            hs.after_tick, rfl⟩
          simp [beginChild, Act.exec_bind, Act.exec_map, Except.map, exec_demandActive, ht, hd,
            exec_tick_some hr, t, he]

/-- A grant changes the destination of an active record. -/
theorem grant_cases (t : Txn) (table : Table) (s : Services) :
    (∃ e s', (grant t table).exec s = (.error e, s') ∧ s.Looks s') ∨
      ∃ u s', s.ledger.find? t.id = some u ∧ u.state = .active ∧
        (grant t table).exec s = (.ok (u.grant table), s') ∧
        s.Records (s.ledger.replace (u.grant table)) s' ∧ s'.clock = s.clock := by
  rcases exec_update_cases t.id (·.grant table) s with ⟨e, he, _⟩ | ⟨u, hu, ha, he⟩
  · refine .inl ⟨e, _, ?_, looks_called s⟩
    simp [grant, Ledger.grant, Act.exec_bind, he]
  · have hs := records_replace s (u.grant table)
    cases hw : t.allowsWrites with
    | true =>
      refine .inr ⟨u, _, hu, ha, ?_, hs.reported (.elevated (u.grant table) table), rfl⟩
      simp [grant, Ledger.grant, Act.exec_bind, Act.exec_map, Except.map, he, hw]
    | false =>
      refine .inr ⟨u, _, hu, ha, ?_,
        (hs.counted .elevations).reported (.elevated (u.grant table) table), rfl⟩
      simp [grant, Ledger.grant, Act.exec_bind, Act.exec_map, Except.map, he, hw]

/-- A rollback rolls an active record back, or finds it rolled back already. -/
theorem rollback_cases (t : Txn) (s : Services) :
    (∃ e s', (rollback t).exec s = (.error e, s') ∧ s.Looks s') ∨
      (∃ s', (rollback t).exec s = (.ok (), s') ∧ s.Looks s' ∧
        (t.state = .rolledBack ∨
          ∃ u, s.ledger.find? t.id = some u ∧ u.state = .rolledBack)) ∨
      ∃ u s', t.state = .active ∧ s.ledger.find? t.id = some u ∧ u.state = .active ∧
        (rollback t).exec s = (.ok (), s') ∧
        s.Records (s.ledger.replace (u.finish .rolledBack)) s' ∧ s'.clock = s.clock := by
  cases ht : t.state with
  | rolledBack => exact .inr (.inl ⟨s, by simp [rollback, ht], .refl s, .inl rfl⟩)
  | committed =>
    exact .inl ⟨.alreadyTerminal t.id .committed, s, by simp [rollback, ht], .refl s⟩
  | active =>
    rcases exec_update_cases t.id (·.finish .rolledBack) s with ⟨e, he, hin⟩ | ⟨u, hu, ha, he⟩
    · by_cases hrb : ∃ i, e = .alreadyTerminal i .rolledBack
      · obtain ⟨i, rfl⟩ := hrb
        refine .inr (.inl ⟨_, ?_, looks_called s, .inr (hin i _ rfl)⟩)
        simp [rollback, ht, Ledger.finish, Act.exec_bind, he]
      · refine .inl ⟨e, _, ?_, looks_called s⟩
        simp only [rollback, ht, Ledger.finish, Act.exec_bind, Act.exec_attempt, he]
        split
        · rename_i h
          cases h
        · rename_i i h
          cases h
          exact absurd ⟨_, rfl⟩ hrb
        · rename_i h
          cases h
          rfl
    · refine .inr (.inr ⟨u, _, rfl, hu, ha, ?_,
        ((records_replace s (u.finish .rolledBack)).counted .rolledBack).reported .rolledBack, rfl⟩)
      simp [rollback, ht, Ledger.finish, Act.exec_bind, he]

/-! ## Looking only -/

theorem recorded_looks (id : TxnId) : Act.Keeps Looks (recorded id) := by
  intro s
  rcases exec_fetch_cases id s with he | he
  · simpa [recorded, Act.exec_bind, he] using looks_called s
  · cases hf : s.ledger.find? id <;> simpa [recorded, Act.exec_bind, he, hf] using looks_called s

/-- The global timestamp is found by looking up one record after the other. -/
theorem globalTimestamp_keeps {R : Services → Services → Prop} (hr : ∀ s, R s s)
    (ht : ∀ s t u, R s t → R t u → R s u) (h : ∀ id, Act.Keeps R (recorded id)) (budget : Nat)
    (seen : List TxnId) (id : Option TxnId) : Act.Keeps R (globalTimestamp budget seen id) := by
  induction budget generalizing seen id with
  | zero => cases id <;> exact hr
  | succ budget ih =>
    cases id with
    | none => exact hr
    | some id =>
      rw [globalTimestamp]
      split
      · exact hr
      · refine .bind ht (h id) fun p => ?_
        split
        · exact hr
        · split
          · exact hr
          · exact ih _ _

/-- Looking for the ancestors that do not cover a table changes no record. -/
theorem uncovered_looks (table : Table) (budget : Nat) (seen : List TxnId) (id : Option TxnId) :
    Act.Keeps Looks (uncovered table budget seen id) := by
  induction budget generalizing seen id with
  | zero => cases id <;> exact Looks.refl
  | succ budget ih =>
    cases id with
    | none => exact Looks.refl
    | some id =>
      rw [uncovered]
      split
      · exact Looks.refl
      · refine .bind Looks.trans (recorded_looks id) fun p => ?_
        split
        · exact Looks.refl
        · exact .bind Looks.trans (ih _ _) fun _ => Looks.refl

/-! ## Commits -/

/-- The global timestamp of a commit of `t` at `ts`. -/
def commitGlobal (config : Config) (t : Txn) (ts : Timestamp) :
    Act Services TxnError (Option Timestamp) :=
  if t.standsAlone then pure (some ts)
  else globalTimestamp config.maxAncestorDepth.toNat [] t.parent

theorem commit_eq (config : Config) (t : Txn) : commit config t = do
    demandActive t
    let ts ← tick
    let globalTs ← commitGlobal config t ts
    discard (onLedger (Ledger.finish t.id (.committed ts globalTs)))
    count .committed
    report (.committed ts globalTs)
    return ts := by
  unfold commit commitGlobal
  cases t.standsAlone <;> rfl

theorem commitGlobal_keeps {R : Services → Services → Prop} (hr : ∀ s, R s s)
    (ht : ∀ s t u, R s t → R t u → R s u) (h : ∀ id, Act.Keeps R (recorded id)) (config : Config)
    (t : Txn) (ts : Timestamp) : Act.Keeps R (commitGlobal config t ts) := by
  unfold commitGlobal
  split
  · exact hr
  · exact globalTimestamp_keeps hr ht h _ _ _

/-- The global timestamp of a commit is found without changing a record. -/
theorem commitGlobal_looks (config : Config) (t : Txn) (ts : Timestamp) :
    Act.Keeps Looks (commitGlobal config t ts) :=
  commitGlobal_keeps Looks.refl Looks.trans recorded_looks config t ts

/-- A commit commits an active record at the next reading of the clock. -/
theorem commit_cases (config : Config) (t : Txn) (s : Services) :
    (∃ e s', (commit config t).exec s = (.error e, s') ∧ s.Records s.ledger s') ∨
      ∃ ts globalTs u s', s.clock.reading s.clock.taken = some ts ∧ t.state = .active ∧
        s.ledger.find? t.id = some u ∧ u.state = .active ∧
        (commit config t).exec s = (.ok ts, s') ∧
        s.Records (s.ledger.replace (u.finish (.committed ts globalTs))) s' ∧
        s'.clock = s.ticked.clock := by
  cases ht : t.state.isTerminal with
  | true =>
    refine .inl ⟨.alreadyTerminal t.id t.state, s, ?_, .refl s⟩
    simp [commit_eq, Act.exec_bind, exec_demandActive, ht]
  | false =>
    cases hr : s.clock.reading s.clock.taken with
    | none =>
      refine .inl ⟨.unavailable .clock, s.ticked, ?_, records_ticked s⟩
      simp [commit_eq, Act.exec_bind, exec_demandActive, ht, exec_tick_none hr]
    | some ts =>
      have hg := commitGlobal_looks config t ts s.ticked
      rcases hx : (commitGlobal config t ts).exec s.ticked with ⟨e | globalTs, s₁⟩
      · rw [hx] at hg
        refine .inl ⟨e, s₁, ?_, hg.toRecords.after_tick⟩
        simp [commit_eq, Act.exec_bind, exec_demandActive, ht, exec_tick_some hr, hx]
      · rw [hx] at hg
        rcases exec_update_cases t.id (·.finish (.committed ts globalTs)) s₁ with
          ⟨e, he, _⟩ | ⟨u, hu, ha, he⟩
        · refine .inl ⟨e, _, ?_, (hg.trans _ _ _ (looks_called s₁)).toRecords.after_tick⟩
          simp [commit_eq, Ledger.finish, Act.exec_bind, Act.exec_discard, Except.map,
            exec_demandActive, ht, exec_tick_some hr, hx, he]
        · have hs := (hg.toRecords.after_tick.replace
            (records_replace s₁ (u.finish (.committed ts globalTs)))).counted .committed
          refine .inr ⟨ts, globalTs, u, _, rfl, Txn.isTerminal_eq_false.1 ht, ?_, ha, ?_,
            hs.reported (.committed ts globalTs), hg.clock⟩
          · exact (hg.find? t.id).symm.trans hu
          · simp [commit_eq, Ledger.finish, Act.exec_bind, Act.exec_map, Act.exec_discard, Except.map,
              exec_demandActive, ht, exec_tick_some hr, hx, he]

end Lifecycle

end NestedTxn
