import NestedTxn.Proofs.Ledger.Edits
import NestedTxn.Proofs.Lifecycle.Runs

/-!
# One outcome per transaction

* `Lifecycle.Call.run_edits`: what a call does to the records is a sequence of edits, also where it
  fails. A call that elevates nothing changes no record if it fails (`Call.run_failed`).
* `Lifecycle.History`: a run, with the calls that were made and whether each of them succeeded.
* `Lifecycle.Settles`: what one call does to the recorded state of one transaction
  (`Call.run_settles`).
* `Lifecycle.Accounts`: the calls that succeeded account for the recorded states
  (`History.accounts`).
* `Lifecycle.outcome_once`: in every run each transaction is committed or rolled back once, if at
  all, and its record stays as it is from then on.
-/

namespace NestedTxn

/-- The recorded state of `id`. -/
def Ledger.state? (l : Ledger) (id : TxnId) : Option TxnState := (l.find? id).map (·.state)

namespace Services

/-- What happened to the records from `s` to `s'` is a sequence of edits. -/
def Edits (s s' : Services) : Prop := s.ledger.Edits s'.ledger

theorem Edits.refl (s : Services) : s.Edits s := Relation.ReflTransGen.refl

theorem Edits.trans (s s' s'' : Services) (h : s.Edits s') (h' : s'.Edits s'') : s.Edits s'' :=
  Relation.ReflTransGen.trans h h'

theorem Records.edits {s s' : Services} (h : s.Records s.ledger s') : s.Edits s' :=
  .single (.look h.txns)

end Services

namespace Lifecycle

open Services

variable {config : Config}

/-! ## Calls are edits -/

theorem beginRoot_edits (isolation : Isolation) : Act.Keeps Edits (beginRoot isolation) := by
  intro s
  rcases beginRoot_cases isolation s with ⟨e, s', he, hs⟩ | ⟨ts, s', _, hf, he, hs, _⟩ <;> rw [he]
  · exact hs.edits
  · exact .single (.create hf rfl hs.txns)

theorem beginChild_edits (config : Config) (parent : Txn) (isolation : Option Isolation)
    (additive : Bool) (table : Option Table) :
    Act.Keeps Edits (beginChild config parent isolation additive table) := by
  intro s
  rcases beginChild_cases config parent isolation additive table s with
    ⟨e, s', he, hs⟩ | ⟨ts, d, s', _, hf, _, _, he, hs, _⟩ <;> rw [he]
  · exact hs.edits
  · exact .single (.create hf rfl hs.txns)

theorem commit_edits (config : Config) (t : Txn) : Act.Keeps Edits (commit config t) := by
  intro s
  rcases commit_cases config t s with
    ⟨e, s', he, hs⟩ | ⟨ts, g, u, s', _, _, hu, ha, he, hs, _⟩ <;> rw [he]
  · exact hs.edits
  · exact .single (.finish (.committed ts g) hu ha hs.txns)

theorem rollback_edits (t : Txn) : Act.Keeps Edits (rollback t) := by
  intro s
  rcases rollback_cases t s with
    ⟨e, s', he, hs⟩ | ⟨s', he, hs, _⟩ | ⟨u, s', _, hu, ha, he, hs, _⟩ <;> rw [he]
  · exact hs.toRecords.edits
  · exact hs.toRecords.edits
  · exact .single (.finish .rolledBack hu ha hs.txns)

theorem demandActive_edits (t : Txn) : Act.Keeps Edits (demandActive t) := by
  intro s
  rw [exec_demandActive]
  split <;> exact .refl s

theorem grant_edits (t : Txn) (table : Table) : Act.Keeps Edits (grant t table) := by
  intro s
  rcases grant_cases t table s with ⟨e, s', he, hs⟩ | ⟨u, s', hu, ha, he, hs, _⟩ <;> rw [he]
  · exact hs.toRecords.edits
  · exact .single (.grant table hu ha hs.txns)

theorem elevate_edits (config : Config) (t : Txn) (table : Table) :
    Act.Keeps Edits (elevate config t table) := by
  rw [elevate]
  split
  · exact Edits.refl
  · exact .bind Edits.trans (demandActive_edits t) fun _ =>
      .bind Edits.trans (fun s => (uncovered_looks _ _ _ _ s).toRecords.edits) fun _ =>
      .bind Edits.trans (.forM Edits.refl Edits.trans (fun a => (grant_edits a table).map _) _)
        fun _ => grant_edits t table

theorem elevateUnder_edits (config : Config) (t : Txn) (table : Table) (parent : Option Txn) :
    Act.Keeps Edits (elevateUnder config t table parent) := by
  rw [elevateUnder]
  split
  · exact Edits.refl
  · split
    · exact .bind Edits.trans (demandActive_edits t) fun _ => grant_edits t table
    · exact elevate_edits config t table

theorem Call.run_edits (config : Config) (c : Call) : Act.Keeps Edits (c.run config) := by
  cases c with
  | beginRoot isolation => exact (beginRoot_edits isolation).map _
  | beginChild parent isolation additive table =>
    exact (beginChild_edits config parent isolation additive table).map _
  | elevate t table => exact (elevate_edits config t table).map _
  | elevateUnder t table parent => exact (elevateUnder_edits config t table parent).map _
  | commit t => exact (commit_edits config t).map _
  | rollback t => exact (rollback_edits t).map _

/-- Calls that elevate a transaction and its ancestors, one after the other. -/
def Call.elevates : Call → Bool
  | elevate .. | elevateUnder .. => true
  | beginRoot _ | beginChild .. | commit _ | rollback _ => false

/-- Every other call that fails changes no record. -/
theorem Call.run_failed {c : Call} (hc : c.elevates = false) {s s' : Services} {e : TxnError}
    (h : (c.run config).exec s = (.error e, s')) : s'.ledger.txns = s.ledger.txns := by
  cases c with
  | elevate t table | elevateUnder t table parent => cases hc
  | beginRoot isolation =>
    rw [run, Act.exec_map] at h
    rcases beginRoot_cases isolation s with ⟨e, s', he, hs⟩ | ⟨ts, s', _, _, he, _⟩ <;>
      rw [he] at h <;> cases h
    exact hs.txns
  | beginChild parent isolation additive table =>
    rw [run, Act.exec_map] at h
    rcases beginChild_cases config parent isolation additive table s with
      ⟨e, s', he, hs⟩ | ⟨ts, d, s', _, _, _, _, he, _⟩ <;> rw [he] at h <;> cases h
    exact hs.txns
  | commit t =>
    rw [run, Act.exec_map] at h
    rcases commit_cases config t s with ⟨e, s', he, hs⟩ | ⟨ts, g, u, s', _, _, _, _, he, _⟩ <;>
      rw [he] at h <;> cases h
    exact hs.txns
  | rollback t =>
    rw [run, Act.exec_map] at h
    rcases rollback_cases t s with
      ⟨e, s', he, hs⟩ | ⟨s', he, _⟩ | ⟨u, s', _, _, _, he, _⟩ <;> rw [he] at h <;> cases h
    exact hs.txns

/-! ## What a call settles -/

/-- Calls that commit the transaction `id`, if they succeed. -/
def Call.commits (id : TxnId) : Call → Bool
  | commit t => t.id = id
  | beginRoot _ | beginChild .. | elevate .. | elevateUnder .. | rollback _ => false

/-- Calls that roll the transaction `id` back, if they succeed. -/
def Call.rollsBack (id : TxnId) : Call → Bool
  | rollback t => t.id = id
  | beginRoot _ | beginChild .. | elevate .. | elevateUnder .. | commit _ => false

/-- What a call does to the recorded state of one transaction, which it commits, or rolls back, or
neither. -/
structure Settles (commits rollsBack : Bool) (before after : Option TxnState) : Prop where
  committed : after = some .committed ↔ before = some .committed ∨ commits = true
  rolledBack : after = some .rolledBack ↔ before = some .rolledBack ∨ rollsBack = true
  /-- What is committed already is not committed again. -/
  once : commits = true → before ≠ some .committed

theorem settles_same (state : Option TxnState) : Settles false false state state :=
  ⟨by simp, by simp, nofun⟩

theorem settles_commit : Settles true false (some .active) (some .committed) :=
  ⟨by simp, by simp, fun _ => nofun⟩

theorem settles_rollback {before : Option TxnState}
    (h : before = some .active ∨ before = some .rolledBack) :
    Settles false true before (some .rolledBack) := by
  rcases h with rfl | rfl <;> exact ⟨by simp, by simp, nofun⟩

variable {s s' : Services} {u : Txn} {id : TxnId}

theorem settles_of_txns (h : s'.ledger.txns = s.ledger.txns) (id : TxnId) :
    Settles false false (s.ledger.state? id) (s'.ledger.state? id) := by
  rw [Ledger.state?, Ledger.state?, Ledger.find?_congr h]
  exact settles_same _

/-- A new transaction is active. -/
theorem settles_of_insert {t : Txn} (hf : s.ledger.find? t.id = none) (ha : t.state = .active)
    (h : s'.ledger.txns = (s.ledger.insert t).txns) (id : TxnId) :
    Settles false false (s.ledger.state? id) (s'.ledger.state? id) := by
  rw [Ledger.state?, Ledger.state?, Ledger.find?_congr h, Ledger.find?_insert]
  split
  · next hid =>
    subst hid
    rw [hf]
    exact ⟨by simp [ha], by simp [ha], nofun⟩
  · exact settles_same _

theorem settles_of_regrants (h : s.Regrants s') (id : TxnId) :
    Settles false false (s.ledger.state? id) (s'.ledger.state? id) := by
  have hstate : ∀ o : Option Txn, o.map (·.state) = (o.map Txn.bare).map (·.state) := by
    intro o
    rw [Option.map_map]
    rfl
  rw [Ledger.state?, Ledger.state?, hstate (s.ledger.find? id), hstate (s'.ledger.find? id),
    h.bare id]
  exact settles_same _

/-- A transaction that is finished; the others keep their states. -/
theorem state?_of_finish {done : TxnId} {o : Outcome} (hu : s.ledger.find? done = some u)
    (h : s'.ledger.txns = (s.ledger.replace (u.finish o)).txns) (id : TxnId) :
    s'.ledger.state? id =
      if done = id then some (u.finish o).state else s.ledger.state? id := by
  rw [Ledger.state?, Ledger.state?, Ledger.find?_congr h, Ledger.find?_replace, Txn.finish_id,
    Ledger.id_of_find? hu]
  split
  · next hid =>
    subst hid
    rw [hu]
    rfl
  · rfl

/-- A call with transactions that were recorded. A rollback may find its transaction rolled back
already. -/
theorem Call.run_settles (config : Config) (c : Call) (s : Services)
    (hc : ∀ t ∈ c.subjects, ∃ u, s.ledger.find? t.id = some u ∧ t.Becomes u) (id : TxnId) :
    Settles (c.commits id && ((c.run config).exec s).1.isOk)
      (c.rollsBack id && ((c.run config).exec s).1.isOk)
      (s.ledger.state? id) (((c.run config).exec s).2.ledger.state? id) := by
  cases c with
  | beginRoot isolation =>
    rw [run, Act.exec_map]
    rcases beginRoot_cases isolation s with ⟨e, s', he, hs⟩ | ⟨ts, s', _, hf, he, hs, _⟩ <;> rw [he]
    · exact settles_of_txns hs.txns id
    · exact settles_of_insert hf rfl hs.txns id
  | beginChild parent isolation additive table =>
    rw [run, Act.exec_map]
    rcases beginChild_cases config parent isolation additive table s with
      ⟨e, s', he, hs⟩ | ⟨ts, d, s', _, hf, _, _, he, hs, _⟩ <;> rw [he]
    · exact settles_of_txns hs.txns id
    · exact settles_of_insert hf rfl hs.txns id
  | elevate t table =>
    rw [run, Act.exec_map]
    exact settles_of_regrants (elevate_regrants config t table s) id
  | elevateUnder t table parent =>
    rw [run, Act.exec_map]
    exact settles_of_regrants (elevateUnder_regrants config t table parent s) id
  | commit t =>
    rw [run, Act.exec_map]
    rcases commit_cases config t s with
      ⟨e, s', he, hs⟩ | ⟨ts, g, u, s', _, _, hu, ha, he, hs, _⟩ <;> rw [he]
    · simpa [Except.map, Except.isOk, Except.toBool, rollsBack] using settles_of_txns hs.txns id
    · rw [state?_of_finish hu hs.txns]
      by_cases hid : t.id = id
      · subst hid
        simpa [Except.map, Except.isOk, Except.toBool, commits, rollsBack, Ledger.state?, hu, ha,
          Txn.finish] using settles_commit
      · simpa [commits, rollsBack, hid] using settles_same _
  | rollback t =>
    rw [run, Act.exec_map]
    rcases rollback_cases t s with
      ⟨e, s', he, hs⟩ | ⟨s', he, hs, hrb⟩ | ⟨u, s', _, hu, ha, he, hs, _⟩ <;> rw [he]
    · simpa [Except.map, Except.isOk, Except.toBool, commits] using settles_of_txns hs.txns id
    · -- the record is rolled back, as a terminal copy of it stays a copy
      have hrecord : ∃ u, s.ledger.find? t.id = some u ∧ u.state = .rolledBack := by
        rcases hrb with ht | hu
        · obtain ⟨u, hu, hb⟩ := hc t (List.mem_singleton_self t)
          obtain rfl := hb.final (by rw [ht]; decide)
          exact ⟨u, hu, ht⟩
        · exact hu
      obtain ⟨u, hu, hus⟩ := hrecord
      by_cases hid : t.id = id
      · subst hid
        have hafter := Ledger.find?_congr hs.txns t.id
        simpa [Except.map, Except.isOk, Except.toBool, commits, rollsBack, Ledger.state?, hafter,
          hu, hus] using settles_rollback (.inr rfl)
      · simpa [commits, rollsBack, hid] using settles_of_txns hs.txns id
    · rw [state?_of_finish hu hs.txns]
      by_cases hid : t.id = id
      · subst hid
        simpa [Except.map, Except.isOk, Except.toBool, commits, rollsBack, Ledger.state?, hu, ha,
          Txn.finish] using settles_rollback (.inl rfl)
      · simpa [commits, rollsBack, hid] using settles_same _

/-! ## Histories -/

/-- A run from `w₀`, with the calls that were made and whether they succeeded, newest first. -/
inductive History (config : Config) (w₀ : World) : List (Call × Bool) → World → Prop
  | start : History config w₀ [] w₀
  /-- A record is copied. -/
  | copy {h : List (Call × Bool)} {w : World} {id : TxnId} {t : Txn} : History config w₀ h w →
      w.ledger.find? id = some t → History config w₀ h (w.copy t)
  /-- A call is made with known transactions. -/
  | call {h : List (Call × Bool)} {w : World} {c : Call} : History config w₀ h w →
      (∀ t ∈ c.subjects, t ∈ w.known) →
      History config w₀ ((c, ((c.run config).exec w.services).1.isOk) :: h) (w.after config c)

/-- The number of calls of the kind `p` that succeeded. -/
def succeeded (p : Call → Bool) (h : List (Call × Bool)) : Nat := h.countP fun e => p e.1 && e.2

variable {w₀ w w' : World} {h : List (Call × Bool)}

theorem History.reach (hw : History config w₀ h w) : Reach config w₀ w := by
  induction hw with
  | start => exact .refl
  | copy _ ht ih => exact .tail ih (.copy ht)
  | call _ hc ih => exact .tail ih (.call hc)

theorem succeeded_cons (p : Call → Bool) (c : Call) (ok : Bool) (h : List (Call × Bool)) :
    succeeded p ((c, ok) :: h) = succeeded p h + if (p c && ok) = true then 1 else 0 :=
  List.countP_cons

/-- The calls that succeeded account for the recorded state of `id`. -/
structure Accounts (h : List (Call × Bool)) (state : Option TxnState) (id : TxnId) : Prop where
  committed : succeeded (Call.commits id) h = if state = some .committed then 1 else 0
  rolledBack : 0 < succeeded (Call.rollsBack id) h ↔ state = some .rolledBack

theorem Accounts.cons {before after : Option TxnState} {id : TxnId} {c : Call} {ok : Bool}
    (h' : Accounts h before id)
    (hc : Settles (c.commits id && ok) (c.rollsBack id && ok) before after) :
    Accounts ((c, ok) :: h) after id := by
  constructor
  · rw [succeeded_cons, h'.committed]
    have hiff := hc.committed
    by_cases hk : (c.commits id && ok) = true
    · rw [if_neg (hc.once hk), if_pos hk, if_pos (hiff.2 (.inr hk))]
    · rw [or_iff_left hk] at hiff
      rw [if_neg hk, Nat.add_zero]
      simp only [hiff]
  · rw [succeeded_cons, hc.rolledBack, ← h'.rolledBack]
    split <;> simp [*]

theorem History.accounts (h₀ : w₀.Fresh) (hw : History config w₀ h w) (id : TxnId) :
    Accounts h (w.ledger.state? id) id := by
  induction hw with
  | start =>
    have hnone : w₀.ledger.state? id = none := by
      have htxns : w₀.ledger.txns = [] := h₀.txns
      simp [Ledger.state?, Ledger.find?, htxns]
    rw [hnone]
    exact ⟨by simp [succeeded], by simp [succeeded]⟩
  | copy _ _ ih => exact ih
  | @call h w c hw hc ih =>
    have hgenuine := hw.reach.genuine h₀
    exact ih.cons (c.run_settles config w.services (fun t ht => hgenuine.known t (hc t ht)) id)

theorem Reach.edits (h : Reach config w w') : w.ledger.Edits w'.ledger := by
  induction h with
  | refl => exact .refl
  | tail _ step ih =>
    cases step with
    | copy _ => exact ih
    | @call c _ => exact ih.trans (c.run_edits config _)

/-- In every run, whatever does not answer and whichever readings the clock repeats: of the commits
of one transaction at most one succeeds, and then no rollback of it does. A record says when it was
committed iff it is, and only then when its outermost ancestor was. No record disappears. Once it is
terminal it never changes, and before what it started with stays, and its destination is only
widened. Except for an elevation, a call that fails changes no record. -/
theorem outcome_once (h₀ : w₀.Fresh) (hw : History config w₀ h w) :
    (∀ id, succeeded (Call.commits id) h ≤ 1 ∧
      ¬ (0 < succeeded (Call.commits id) h ∧ 0 < succeeded (Call.rollsBack id) h)) ∧
    (∀ id t, w.ledger.find? id = some t →
      (t.commitTimestamp.isSome ↔ t.state = .committed) ∧
      (t.globalCommitTimestamp.isSome → t.state = .committed)) ∧
    (∀ w', Reach config w w' → ∀ id t, w.ledger.find? id = some t →
      ∃ u, w'.ledger.find? id = some u ∧ (t.state ≠ .active → u = t) ∧ u.origin = t.origin ∧
        ∀ d, t.destination = some d → ∃ d', u.destination = some d' ∧
          ∀ table, d.covers table = true → d'.covers table = true) ∧
    ∀ c : Call, c.elevates = false → ∀ e s', (c.run config).exec w.services = (.error e, s') →
      s'.ledger.txns = w.ledger.txns := by
  refine ⟨fun id => ?_, fun id t ht => ?_, fun w' hr id t ht => ?_, fun c hc e s' he => ?_⟩
  · have ha := hw.accounts h₀ id
    rw [ha.committed, ha.rolledBack]
    refine ⟨by split <;> omega, fun ⟨hc, hr⟩ => ?_⟩
    rw [if_neg (by rw [hr]; nofun)] at hc
    exact Nat.lt_irrefl 0 hc
  · have hs := hw.reach.edits.stamped (Ledger.stamped_nil h₀.txns) id t ht
    exact ⟨hs.commit, hs.global⟩
  · obtain ⟨u, hu, htu⟩ := hr.edits.leads id t ht
    exact ⟨u, hu, htu.final, htu.origin, htu.wider⟩
  · exact Call.run_failed hc he

/-! ## Stale copies -/

/-- A root, as it is handed out. -/
def outlived : Txn := .root 1 1 .snapshot

/-- The root is begun and committed. -/
def committedWorld : World :=
  (World.empty.after {} (.beginRoot .snapshot)).after {} (.commit outlived)

/-- It is committed and rolled back again, as if it were still active. -/
def outlivedWorld : World :=
  (committedWorld.after {} (.commit outlived)).after {} (.rollback outlived)

/-- Only the first commit succeeds. -/
def outlivedCalls : List (Call × Bool) :=
  [(.rollback outlived, false), (.commit outlived, false), (.commit outlived, true),
    (.beginRoot .snapshot, true)]

theorem history_outlivedWorld : History {} World.empty outlivedCalls outlivedWorld := by
  have hbegun : History {} World.empty [(.beginRoot .snapshot, true)]
      (World.empty.after {} (.beginRoot .snapshot)) := .call .start (List.forall_mem_nil _)
  have hcommitted : History {} World.empty [(.commit outlived, true), (.beginRoot .snapshot, true)]
      committedWorld := .call hbegun (List.forall_mem_singleton.2 (by decide))
  have hagain : History {} World.empty
      [(.commit outlived, false), (.commit outlived, true), (.beginRoot .snapshot, true)]
      (committedWorld.after {} (.commit outlived)) :=
    .call hcommitted (List.forall_mem_singleton.2 (by decide))
  exact .call hagain (List.forall_mem_singleton.2 (by decide))

/-- The general rule at this run. -/
theorem outcome_once_outlived :
    succeeded (Call.commits 1) outlivedCalls = 1 ∧ succeeded (Call.rollsBack 1) outlivedCalls = 0 ∧
      outlivedWorld.ledger.find? 1 = some (outlived.finish (.committed 2 (some 2))) ∧
      ∀ w', Reach {} outlivedWorld w' →
        w'.ledger.find? 1 = some (outlived.finish (.committed 2 (some 2))) := by
  obtain ⟨hcalls, -, hfrozen, -⟩ := outcome_once World.empty_fresh history_outlivedWorld
  have hone : succeeded (Call.commits 1) outlivedCalls = 1 := by decide
  have hnone : ¬ 0 < succeeded (Call.rollsBack 1) outlivedCalls :=
    fun h => (hcalls 1).2 ⟨by rw [hone]; exact Nat.one_pos, h⟩
  have hrecord : outlivedWorld.ledger.find? 1 = some (outlived.finish (.committed 2 (some 2))) := by
    decide
  refine ⟨hone, Nat.eq_zero_of_not_pos hnone, hrecord, fun w' hr => ?_⟩
  obtain ⟨u, hu, hfinal, -⟩ := hfrozen w' hr 1 _ hrecord
  rw [hu, hfinal nofun]

end Lifecycle

end NestedTxn
