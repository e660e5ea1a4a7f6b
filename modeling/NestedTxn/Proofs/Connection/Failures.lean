import NestedTxn.Proofs.Connection.Perched
import NestedTxn.Proofs.Lifecycle.Failures

/-!
# Why the calls of a connection fail

* `Services.Unused s n`: the next `n` readings of the clock are not the ids of records, and differ.
* `Connection.Expected`: the errors that a caller has to expect of a connection that is in order: a
  service does not answer, the connection is closed, a savepoint of that name does not exist, or the
  stack is as high as it may be.
* `setSavepoint_fails` and so on: a perched connection in a sound ledger fails with nothing else. So
  it finds none of its entries ended before, missing, or hung wrongly.
-/

namespace NestedTxn

namespace Services

/-- The next `n` readings of the clock differ, and none is the id of a record. -/
def Unused (s : Services) (n : Nat) : Prop :=
  ∀ i < n, ∀ ts, s.clock.reading (s.clock.taken + i) = some ts →
    s.ledger.find? ts = none ∧ ∀ j < i, s.clock.reading (s.clock.taken + j) ≠ some ts

/-- From `s` to `s'` no time went by, and nothing was recorded that was not. -/
structure Idles (s s' : Services) : Prop where
  clock : s'.clock = s.clock
  unrecorded : ∀ id, s.ledger.find? id = none → s'.ledger.find? id = none

variable {s s' s'' : Services} {n m : Nat}

theorem Idles.refl (s : Services) : s.Idles s := ⟨rfl, fun _ h => h⟩

theorem Idles.trans (s s' s'' : Services) (h : s.Idles s') (h' : s'.Idles s'') : s.Idles s'' :=
  ⟨h'.clock.trans h.clock, fun id hid => h'.unrecorded id (h.unrecorded id hid)⟩

theorem Looks.idles (h : s.Looks s') : s.Idles s' := ⟨h.clock, fun id hid => (h.find? id).trans hid⟩

theorem rollback_idles (t : Txn) : Act.Keeps Idles (Lifecycle.rollback t) := by
  intro s
  rcases Lifecycle.rollback_cases t s with
    ⟨e, s', he, hs⟩ | ⟨s', he, hs, _⟩ | ⟨u, s', _, _, _, he, hs, hc⟩
  · rw [he]
    exact hs.idles
  · rw [he]
    exact hs.idles
  · rw [he]
    refine ⟨hc, fun id hid => ?_⟩
    rw [hs.find?, Ledger.find?_replace, hid]
    split <;> rfl

theorem Unused.mono (h : s.Unused n) (hm : m ≤ n) : s.Unused m :=
  fun i hi => h i (Nat.lt_of_lt_of_le hi hm)

theorem Unused.next (h : s.Unused n) (hn : 0 < n) : s.NextUnused :=
  fun ts hts => (h 0 hn ts hts).1

theorem Unused.idles (h : s.Unused n) (hs : s.Idles s') : s'.Unused n := by
  intro i hi ts hts
  rw [hs.clock] at hts ⊢
  obtain ⟨hn, hapart⟩ := h i hi ts hts
  exact ⟨hs.unrecorded ts hn, hapart⟩

/-- The first of the readings may become an id. -/
theorem Unused.insert {t : Txn} (h : s.Unused (n + 1))
    (hr : s.clock.reading s.clock.taken = some t.id) (hs : s.Records (s.ledger.insert t) s')
    (hc : s'.clock = s.ticked.clock) : s'.Unused n := by
  intro i hi ts hts
  have htaken : s'.clock.taken = s.clock.taken + 1 := by rw [hc]; rfl
  have hlater : ∀ k, s'.clock.taken + k = s.clock.taken + (k + 1) := by omega
  rw [hs.reading, hlater] at hts
  obtain ⟨hn, hapart⟩ := h (i + 1) (by omega) ts hts
  refine ⟨?_, fun j hj => ?_⟩
  · have hne : t.id ≠ ts := by
      rintro rfl
      exact hapart 0 (by omega) hr
    rw [hs.find?, Ledger.find?_insert, if_neg hne, hn]
  · rw [hs.reading, hlater]
    exact hapart (j + 1) (by omega)

end Services

namespace Connection

open Ledger Services TxnError

/-- An error that a caller has to expect of a connection that is in order. -/
inductive Expected (config : Config) : TxnError → Prop
  /-- A service does not answer. -/
  | outage (o : Outage) : Expected config (.unavailable o)
  /-- The connection is closed. -/
  | closed : Expected config .closed
  /-- There is no savepoint of that name. -/
  | noSavepoint (name : String) : Expected config (.savepointNotFound name)
  /-- The stack is as high as it may be. -/
  | tooHigh (id : TxnId) : Expected config (.nestingTooDeep id config.maxAncestorDepth)

theorem expected_of_outage {config : Config} {e : TxnError} (h : e.IsOutage) :
    Expected config e := by
  obtain ⟨o, rfl⟩ := h
  exact .outage o

variable {config : Config} {p q : Connection × Services} {name : String}
  {finish : Txn → Act Services TxnError Unit}

/-! ## Steps of calls -/

theorem onSnd_fails {α : Type} {Q : TxnError → Prop} {a : Act Services TxnError α}
    (h : Act.FailsWith Q a p.2) : Act.FailsWith Q (Act.onSnd a) p := by
  intro e q he
  rw [Act.exec_onSnd] at he
  have hfails : (a.exec p.2).1 = .error e := congrArg Prod.fst he
  exact h e (a.exec p.2).2 (Prod.ext hfails rfl)

theorem leaf_fails (p : Connection × Services) : Act.FailsWith (Expected config) leaf p := by
  cases hst : p.1.stack with
  | nil => exact .of_error (exec_leaf_nil hst) .closed
  | cons e rest => exact .of_ok (exec_leaf_cons hst)

theorem find_fails (name : String) (p : Connection × Services) :
    Act.FailsWith (Expected config) (find name) p := by
  refine .bind (.of_ok (Act.exec_get p)) fun q _ _ => ?_
  dsimp only
  split
  · exact .throw .closed
  · split
    · exact .pure _
    · exact .throw (.noSavepoint name)

/-- An idle connection begins a root, if the next reading is unused. -/
theorem ensureActive_fails (hn : p.2.NextUnused) :
    Act.FailsWith (Expected config) (ensureActive config) p := by
  refine .bind (.of_ok (Act.exec_get p)) fun q p' hq => ?_
  cases hq
  cases p.1.phase with
  | closed => exact .throw .closed
  | active => exact .pure _
  | idle =>
    have hroot := Lifecycle.beginRoot_fails hn config.defaultIsolation
    exact .bind (onSnd_fails (hroot.mono fun _ => expected_of_outage)) fun _ _ _ =>
      .of_ok (exec_alter _ _)

/-- A root takes one reading. -/
theorem ensureActive_unused {n : Nat} (h : p.2.Unused (n + 1))
    (hx : (ensureActive config).exec p = (.ok (), q)) : q.2.Unused n := by
  rcases ensureActive_cases config p with
    ⟨err, s', he, _⟩ | ⟨_, he⟩ | ⟨ts, s', _, hr, _, he, hs, hc⟩ <;> rw [he] at hx <;> cases hx
  · exact h.mono (Nat.le_succ n)
  · exact h.insert (t := .root ts ts config.defaultIsolation) hr hs hc

section

variable (hp : p.1.Perched p.2.ledger)
include hp

/-- A child of the leaf begins, if the next reading is unused. -/
theorem pushChild_fails (hn : p.2.NextUnused) (name : String) :
    Act.FailsWith (Expected config) (pushChild config name) p := by
  refine .bind (leaf_fails p) fun parent p' hl => ?_
  cases hst : p.1.stack with
  | nil =>
    rw [exec_leaf_nil hst] at hl
    cases hl
  | cons e rest =>
    rw [exec_leaf_cons hst] at hl
    cases hl
    have ha : e.txn.state = .active := hp.active e (by simp [hst])
    have hchild : Act.FailsWith (Expected config) (Lifecycle.beginChild config e.txn) p.2 := by
      refine (Lifecycle.beginChild_fails hn ha none false none).mono ?_
      rintro _ (ho | rfl)
      · exact expected_of_outage ho
      · exact .tooHigh _
    exact .bind (onSnd_fails hchild) fun _ _ _ => .of_ok (exec_alter _ _)

variable (hs : p.2.ledger.Sound config.maxAncestorDepth.toNat)
include hs

/-- An entry is committed unless a service does not answer. -/
theorem commit_entry_fails {e : Savepoint} (he : e ∈ p.1.stack) :
    Act.FailsWith IsOutage (Lifecycle.commit config e.txn) p.2 := by
  obtain ⟨u, hu, hb⟩ := hp.found e he
  refine (Lifecycle.commit_fails hs hu (Txn.origin_of_bare hb)).mono fun err herr => ?_
  rcases herr with ho | ⟨state, hstate, hne, rfl⟩
  · exact ho
  · rcases hstate with rfl | rfl
    · exact absurd (hp.active e he) hne
    · exact absurd (hp.record_active he hu) hne

omit hs in
/-- An entry is rolled back unless the ledger does not answer. -/
theorem rollback_entry_fails {e : Savepoint} (he : e ∈ p.1.stack) :
    Act.FailsWith IsOutage (Lifecycle.rollback e.txn) p.2 := by
  obtain ⟨u, hu, hb⟩ := hp.found e he
  refine (Lifecycle.rollback_fails hu).mono fun err herr => ?_
  rcases herr with ho | ⟨hcommitted, rfl⟩
  · exact ho
  · rw [hp.active e he, hp.record_active he hu] at hcommitted
    rcases hcommitted with h | h <;> cases h

end

/-! ## Rollbacks take no time -/

/-- From `p` to `q` no time went by, and nothing was recorded that was not. -/
def Unhurried (p q : Connection × Services) : Prop := p.2.Idles q.2

theorem Unhurried.trans (p q r : Connection × Services) (h : Unhurried p q)
    (h' : Unhurried q r) : Unhurried p r :=
  Idles.trans p.2 q.2 r.2 h h'

theorem dropTop_idles : Act.Keeps Unhurried (dropTop Lifecycle.rollback) := by
  intro p
  rw [dropTop]
  cases hst : p.1.stack with
  | nil =>
    rw [Act.exec_bind_error (exec_leaf_nil hst)]
    exact .refl p.2
  | cons e rest =>
    rw [Act.exec_bind_ok (exec_leaf_cons hst)]
    refine Act.Keeps.bind Unhurried.trans (fun q => ?_) (fun _ q => ?_) p
    · exact rollback_idles e.txn q.2
    · exact Idles.refl q.2

theorem unwind_idles (n : Nat) : Act.Keeps Unhurried (unwind Lifecycle.rollback n) := by
  induction n with
  | zero => exact fun p => .refl p.2
  | succ n ih =>
    rw [unwind_succ]
    exact .bind Unhurried.trans dropTop_idles fun _ => ih

theorem unwindTo_idles (name : String) :
    Act.Keeps Unhurried (unwindTo name Lifecycle.rollback) := by
  refine .bind Unhurried.trans (fun p => ?_) fun _ =>
    .bind Unhurried.trans (fun p => .refl p.2) fun _ =>
    .bind Unhurried.trans (unwind_idles _) fun _ p => .refl p.2
  rcases hx : (find name).exec p with ⟨x, q⟩
  rw [find_same hx]
  exact .refl p.2

/-! ## Unwinding -/

/-- A way to end an entry that fails only as expected. -/
def Ends (config : Config) (finish : Txn → Act Services TxnError Unit) : Prop :=
  ∀ p : Connection × Services, p.1.Perched p.2.ledger →
    p.2.ledger.Sound config.maxAncestorDepth.toNat → ∀ e ∈ p.1.stack,
      Act.FailsWith (Expected config) (finish e.txn) p.2

theorem commit_ends (config : Config) :
    Ends config fun t => discard (Lifecycle.commit config t) :=
  fun _ hp hs _ he => ((commit_entry_fails hp hs he).mono fun _ => expected_of_outage).map _

theorem rollback_ends (config : Config) : Ends config Lifecycle.rollback :=
  fun _ hp _ _ he => (rollback_entry_fails hp he).mono fun _ => expected_of_outage

section

variable (hp : p.1.Perched p.2.ledger) (hs : p.2.ledger.Sound config.maxAncestorDepth.toNat)
include hp hs

/-- What follows an operation meets a perched connection in a sound ledger again. -/
theorem Perched.after {α : Type} {a : Act (Connection × Services) TxnError α}
    {x : Except TxnError α} (ha : Act.Keeps (Shifts config) a) (hx : a.exec p = (x, q)) :
    q.1.Perched q.2.ledger ∧ q.2.ledger.Sound config.maxAncestorDepth.toNat := by
  have hshifts := ha p
  rw [hx] at hshifts
  exact hshifts.perched hp hs

theorem dropTop_fails (hends : Ends config finish) :
    Act.FailsWith (Expected config) (dropTop finish) p := by
  refine .bind (leaf_fails p) fun top p' hl => ?_
  cases hst : p.1.stack with
  | nil =>
    rw [exec_leaf_nil hst] at hl
    cases hl
  | cons e rest =>
    rw [exec_leaf_cons hst] at hl
    cases hl
    exact .bind (onSnd_fails (hends p hp hs e (by simp [hst]))) fun _ _ _ =>
      .of_ok (exec_alter _ _)

theorem unwind_fails (hends : Ends config finish) (hdrops : Drops finish) (n : Nat) :
    Act.FailsWith (Expected config) (unwind finish n) p := by
  induction n generalizing p with
  | zero => exact .pure _
  | succ n ih =>
    rw [unwind_succ]
    refine .bind (dropTop_fails hp hs hends) fun _ q hq => ?_
    obtain ⟨hp', hs'⟩ := hp.after hs (dropTop_shifts hdrops) hq
    exact ih hp' hs'

theorem unwindTo_fails (hends : Ends config finish) (hdrops : Drops finish) (name : String) :
    Act.FailsWith (Expected config) (unwindTo name finish) p := by
  refine .bind (find_fails name p) fun target q hq => ?_
  obtain ⟨hp', hs'⟩ := hp.after hs (find_shifts name) hq
  refine .bind (.of_ok (Act.exec_get q)) fun _ q' hq' => ?_
  cases hq'
  exact .bind (unwind_fails hp' hs' hends hdrops _) fun _ _ _ => .of_ok (exec_alter _ _)

/-! ## Calls -/

/-- A savepoint takes at most two readings: one for a root, one for the child. -/
theorem setSavepoint_fails (hu : p.2.Unused 2) (name : String) :
    Act.FailsWith (Expected config) (setSavepoint config name) p := by
  rw [setSavepoint_eq]
  refine .bind (.of_ok (Act.exec_get p)) fun _ q hq => ?_
  cases hq
  split
  · exact .pure _
  · refine .bind ?_ fun _ q hq => ?_
    · unfold heed
      split
      · exact .of_ok (exec_alter _ _)
      · exact .pure _
    obtain ⟨hp₁, hs₁⟩ := hp.after hs (heed_shifts name true) hq
    have hu₁ : q.2.Unused 2 := by
      unfold heed at hq
      split at hq <;> cases hq <;> exact hu
    refine .bind (.of_ok (exec_trace _ _ _ _)) fun _ q' hq' => ?_
    obtain ⟨hp₂, hs₂⟩ := hp₁.after hs₁ (trace_shifts _ _ _) hq'
    have hu₂ : q'.2.Unused 2 := by
      cases hq'
      exact hu₁
    refine .bind (ensureActive_fails (hu₂.next (by decide))) fun _ q₃ hq₃ => ?_
    obtain ⟨hp₃, hs₃⟩ := hp₂.after hs₂ (ensureActive_shifts config) hq₃
    have hu₃ := ensureActive_unused hu₂ hq₃
    refine .bind (pushChild_fails hp₃ (hu₃.next (by decide)) name) fun _ _ _ => ?_
    exact .bind (.of_ok (exec_trace _ _ _ _)) fun _ _ _ =>
      .bind (.of_ok (Act.exec_get _)) fun _ _ _ => .pure _

theorem releaseSavepoint_fails (name : String) :
    Act.FailsWith (Expected config) (releaseSavepoint config name) p := by
  rw [releaseSavepoint_eq]
  refine .bind ?_ fun _ q hq => ?_
  · unfold heed
    split
    · exact .of_ok (exec_alter _ _)
    · exact .pure _
  obtain ⟨hp₁, hs₁⟩ := hp.after hs (heed_shifts name false) hq
  refine .bind (.of_ok (Act.exec_get q)) fun _ q' hq' => ?_
  cases hq'
  split
  · exact .pure _
  · refine .bind (.of_ok (exec_trace _ _ _ _)) fun _ q₂ hq₂ => ?_
    obtain ⟨hp₂, hs₂⟩ := hp₁.after hs₁ (trace_shifts _ _ _) hq₂
    refine .bind (unwindTo_fails hp₂ hs₂ (commit_ends config) (commit_drops config) name)
      fun _ _ _ => ?_
    exact .bind (.of_ok (exec_trace _ _ _ _)) fun _ _ _ =>
      .bind (.of_ok (Act.exec_get _)) fun _ _ _ => .pure _

/-- A rollback to a savepoint takes no reading before it sets the savepoint again. -/
theorem rollbackTo_fails (hu : p.2.Unused 2) (name : String) :
    Act.FailsWith (Expected config) (rollbackTo config name) p := by
  refine .bind (.of_ok (Act.exec_get p)) fun _ q hq => ?_
  cases hq
  split
  · exact .pure _
  · refine .bind (.of_ok (exec_trace _ _ _ _)) fun _ q₁ hq₁ => ?_
    obtain ⟨hp₁, hs₁⟩ := hp.after hs (trace_shifts _ _ _) hq₁
    have hu₁ : q₁.2.Unused 2 := by
      cases hq₁
      exact hu
    refine .bind (unwindTo_fails hp₁ hs₁ (rollback_ends config) rollback_drops name)
      fun _ q₂ hq₂ => ?_
    obtain ⟨hp₂, hs₂⟩ := hp₁.after hs₁ (unwindTo_shifts rollback_drops name) hq₂
    have hidle := unwindTo_idles name q₁
    rw [hq₂] at hidle
    refine .bind (setSavepoint_fails hp₂ hs₂ (hu₁.idles hidle) name) fun _ _ _ => ?_
    exact .bind (.of_ok (exec_trace _ _ _ _)) fun _ _ _ => .pure _

theorem commit_fails : Act.FailsWith (Expected config) (commit config) p := by
  rw [commit_eq]
  refine .bind (.of_ok (exec_trace _ _ _ p)) fun _ q hq => ?_
  obtain ⟨hp₁, hs₁⟩ := hp.after hs (trace_shifts _ _ _) hq
  refine .bind (.of_ok (Act.exec_get q)) fun _ q' hq' => ?_
  cases hq'
  split
  · exact .bind (onSnd_fails (.of_ok (exec_report _ _))) fun _ _ _ => .pure _
  · exact .throw .closed
  · split
    · exact .bind (.of_ok (exec_alter _ _)) fun _ _ _ => .pure _
    · next bottom hb =>
      obtain ⟨e, he, rfl⟩ := Option.map_eq_some_iff.1 hb
      have hend : Act.FailsWith (Expected config) (Lifecycle.commit config e.txn) q.2 :=
        (commit_entry_fails hp₁ hs₁ (List.mem_of_getLast? he)).mono fun _ => expected_of_outage
      refine .bind (.bind (onSnd_fails hend) fun _ _ _ => ?_) fun _ _ _ => ?_
      · exact .bind (.of_ok (exec_alter _ _)) fun _ _ _ => .pure _
      · exact .bind (.of_ok (exec_trace _ _ _ _)) fun _ _ _ => .pure _

theorem abort_fails : Act.FailsWith (Expected config) abort p := by
  rw [abort_eq]
  refine .bind (.of_ok (exec_trace _ _ _ p)) fun _ q hq => ?_
  obtain ⟨hp₁, hs₁⟩ := hp.after hs (trace_shifts _ _ _) hq
  refine .bind (.of_ok (Act.exec_get q)) fun _ q' hq' => ?_
  cases hq'
  split
  · exact .pure _
  · refine .bind (unwind_fails hp₁ hs₁ (rollback_ends config) rollback_drops _) fun _ _ _ => ?_
    exact .bind (.of_ok (exec_alter _ _)) fun _ _ _ => .of_ok (exec_trace _ _ _ _)

theorem close_fails : Act.FailsWith (Expected config) close p :=
  .bind (abort_fails hp hs) fun _ _ _ => .of_ok (exec_alter _ _)

end

end Connection

end NestedTxn
