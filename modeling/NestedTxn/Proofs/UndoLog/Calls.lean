import NestedTxn.Proofs.UndoLog.Steps

/-!
# Calls of a connection do what the undo log does

* `UndoLog.Leaves ts clock max w i r q`: session `i` was left as `q`, and the log is `r`. There is
  one lemma for each call of a connection: `Refines.setSavepoint`, `releaseSavepoint`, `rollbackTo`,
  `commit`, `abort`, `close` and `activeTxn`, and `Refines.write` for the one of a session.
* A call that fails does what the log does, too: a savepoint that would nest too deep only begins,
  a name that is not on the stack changes nothing, and a closed session does nothing at all.
-/

namespace NestedTxn

namespace UndoLog

open Connection Services

/-- Session `i` was left as `q`, and at rest. The log of the database is `r` now. -/
structure Leaves (ts : Nat → Timestamp) (clock : Clock) (max : Nat) (w : Database.State) (i : Nat)
    (r : UndoLog) (q : Connection × Services) : Prop where
  refines : Refines ts clock max (w.put i q) r
  rests : q.1.Rests

variable {ts : Nat → Timestamp} {clock : Clock} {config : Config} {max : Nat} {w : Database.State}
  {r r' : UndoLog} {i : Nat} {p q : Connection × Services} {name : String}

theorem Leaves.of_put (h : Leaves ts clock max (w.put i p) i r q) : Leaves ts clock max w i r q :=
  ⟨by simpa using h.refines, h.rests⟩

/-- Something may be reported at the end. -/
theorem Leaves.reported (h : Leaves ts clock max w i r q) (e : Event) :
    Leaves ts clock max w i r (q.1, q.2.reported e) :=
  ⟨by simpa using h.refines.reported i e, h.rests⟩

/-- Other names leave the switch alone. -/
theorem exec_heed {name : String} (hn : name ≠ batchName) (on : Bool) (p : Connection × Services) :
    (heed name on).exec p = (.ok (), p) := by
  rw [heed, if_neg hn]
  rfl

namespace Refines

/-! ## What is undone altogether -/

section

variable (h : Refines ts clock max w r)
include h

/-- Uncommitted writes were made since the bottom entry was pushed. -/
theorem exists_bottom {x : Write} (hx : x ∈ r.writes) (hp : x.isPending i = true) :
    ∃ m, (r.marks i).getLast? = some m ∧ m.since ≤ x.serial := by
  obtain ⟨v, hv⟩ := h.trace.exists_of_mem hx
  obtain ⟨_, k, _, _, hpend⟩ := hv.pending hp
  exact hpend.exists_bottom

theorem undo_bottom {above : List Mark} {m : Mark} (hms : r.marks i = above ++ [m]) :
    r.undo i m.since = r.undo i 0 := by
  refine undo_eq_undo_zero r i fun x hx hp => ?_
  obtain ⟨m', hm', hle⟩ := h.exists_bottom hx hp
  rw [hms, List.getLast?_concat] at hm'
  cases hm'
  exact hle

/-- Removing all entries is an abort. -/
theorem popUndo_all : (popUndo i)^[(r.marks i).length] r = r.abort i := by
  rcases List.eq_nil_or_concat' (r.marks i) with hms | ⟨above, m, hms⟩
  · have hno : ∀ x ∈ r.writes, x.isPending i = false := fun x hx => by
      by_contra hp
      obtain ⟨m, hm, _⟩ := h.exists_bottom hx (by simpa using hp)
      rw [hms] at hm
      cases hm
    have hundo : r.undo i 0 = r := by
      rw [undo, List.filter_eq_self.2 fun x hx => by simp [hno x hx]]
    rw [hms, abort, hundo, ← hms, setMarks_marks, hms]
    rfl
  · have hlen : (r.marks i).length = above.length + 1 := by rw [hms, List.length_append]; rfl
    rw [hlen, popUndo_iterate hms (h.sorted i), h.undo_bottom hms]
    rfl

/-- Removing the entries down to one with a name is the first half of a rollback to it. -/
theorem popUndo_nearest {m : Mark} {below : List Mark}
    (hn : nearest? name (r.marks i) = some (m, below)) :
    (popUndo i)^[(r.marks i).length - below.length] r =
      (r.undo i (if below.isEmpty then 0 else m.since)).setMarks i below := by
  obtain ⟨above, hms⟩ := eq_append_of_nearest? hn
  have hlen : (r.marks i).length - below.length = above.length + 1 := by
    rw [hms, List.length_append, List.length_cons]
    omega
  rw [hlen, popUndo_iterate hms (h.sorted i)]
  cases below with
  | nil => rw [h.undo_bottom hms]; rfl
  | cons => rfl

end

/-! ## Savepoints -/

/-- Savepoints are not switched off. -/
theorem not_suppressed (h : Refines ts clock max w r) (i : Nat) :
    ¬ (w.view i).1.suppressed = true := by
  rw [show (w.view i).1.suppressed = false from (h.tracks i).suppressed]
  decide

section

variable (hts : StrictMono ts) (hiso : config.defaultIsolation = .snapshot)
  (h : Refines ts clock config.maxAncestorDepth.toNat w r) (hrest : (w.sessions i).Rests)
include hts hiso h hrest

theorem setSavepoint (hn : name ≠ batchName)
    (hsup : Supplies clock ts (r.savepoint ts config.maxAncestorDepth.toNat i name).taken) :
    Leaves ts clock config.maxAncestorDepth.toNat w i
      (r.savepoint ts config.maxAncestorDepth.toNat i name)
      ((Connection.setSavepoint config name).exec (w.view i)).2 := by
  obtain ⟨q₁, hx₁, h₁, hq₁⟩ := h.traced i false .setSavepoint name
  rw [setSavepoint_eq, Act.exec_bind_ok (Act.exec_get _), if_neg (h.not_suppressed i),
    Act.exec_bind_ok (exec_heed hn true _), Act.exec_bind_ok hx₁]
  have hrest₁ : q₁.1.Rests := hq₁ ▸ hrest
  cases hcl : (r.clients i).closed with
  | true =>
    have hph : q₁.1.phase = .closed := by rw [hq₁, (h.tracks i).closed, hcl]
    rw [Act.exec_bind_error (exec_ensureActive_closed hph), savepoint_of_closed hcl]
    exact ⟨h₁, hrest₁⟩
  | false =>
    obtain ⟨q₂, hx₂, h₂, hst⟩ := h₁.activated (i := i) hts hiso hcl (by simpa using hrest₁)
      (hsup.mono (taken_savepoint name))
    simp only [Database.State.view_put, Database.State.put_put] at hx₂ h₂
    rw [Act.exec_bind_ok hx₂]
    by_cases hd : config.maxAncestorDepth.toNat < ((r.begin ts i).marks i).length
    · have hsp : r.savepoint ts config.maxAncestorDepth.toNat i name = r.begin ts i := by
        simp [savepoint, hd]
      obtain ⟨e, he⟩ := h₂.not_grown (i := i) (by simpa using hst) hd name
      rw [Database.State.view_put] at he
      rw [Act.exec_bind_error he, hsp]
      exact ⟨h₂, fun _ => hst⟩
    · have hsp : r.savepoint ts config.maxAncestorDepth.toNat i name =
          (r.begin ts i).push ts i name := by
        simp [savepoint, hd, hcl]
      rw [hsp] at hsup ⊢
      obtain ⟨q₃, hx₃, h₃, hst₃⟩ := h₂.grown (i := i) hts (by simpa using hst) (by omega) hsup name
      simp only [Database.State.view_put, Database.State.put_put] at hx₃ h₃
      rw [Act.exec_bind_ok hx₃]
      have h₄ : Leaves ts clock _ w i _ q₃ := ⟨h₃, fun _ => hst₃⟩
      exact h₄.reported _

theorem rollbackTo (hn : name ≠ batchName)
    (hsup : Supplies clock ts (r.rollbackTo ts config.maxAncestorDepth.toNat i name).taken) :
    Leaves ts clock config.maxAncestorDepth.toNat w i
      (r.rollbackTo ts config.maxAncestorDepth.toNat i name)
      ((Connection.rollbackTo config name).exec (w.view i)).2 := by
  obtain ⟨q₁, hx₁, h₁, hq₁⟩ := h.traced i false .rollbackToSavepoint name
  rw [Connection.rollbackTo, Act.exec_bind_ok (Act.exec_get _), if_neg (h.not_suppressed i),
    Act.exec_bind_ok hx₁]
  cases hm : nearest? name (r.marks i) with
  | none =>
    obtain ⟨e, he⟩ := h₁.not_unwoundTo hm Lifecycle.rollback
    rw [Database.State.view_put] at he
    rw [Act.exec_bind_error he, UndoLog.rollbackTo, hm]
    exact ⟨h₁, hq₁ ▸ hrest⟩
  | some x =>
    obtain ⟨m, below⟩ := x
    have hundo := h.popUndo_nearest hm
    have hback : r.rollbackTo ts config.maxAncestorDepth.toNat i name =
        ((popUndo i)^[(r.marks i).length - below.length] r).savepoint ts
          config.maxAncestorDepth.toNat i name := by
      rw [UndoLog.rollbackTo, hm, hundo]
    rw [hback] at hsup ⊢
    obtain ⟨q₂, hx₂, h₂, hrest₂⟩ := (pops_undo (i := i)).unwoundTo h₁ hm
      (hsup.mono (taken_begin.trans (taken_savepoint name)))
    simp only [Database.State.view_put, Database.State.put_put] at hx₂ h₂
    have h₃ := (h₂.setSavepoint (i := i) hts hiso (by simpa using hrest₂) hn hsup).of_put
    rw [Database.State.view_put] at h₃
    rw [Act.exec_bind_ok hx₂, Act.exec_bind]
    split
    · next hx₃ =>
      rw [hx₃] at h₃
      exact h₃.reported _
    · next hx₃ =>
      rw [hx₃] at h₃
      exact h₃

end

theorem releaseSavepoint (h : Refines ts clock config.maxAncestorDepth.toNat w r)
    (hrest : (w.sessions i).Rests) (hmax : 0 < config.maxAncestorDepth.toNat)
    (hn : name ≠ batchName) (hsup : Supplies clock ts (r.release ts i name).taken) :
    Leaves ts clock config.maxAncestorDepth.toNat w i (r.release ts i name)
      ((Connection.releaseSavepoint config name).exec (w.view i)).2 := by
  obtain ⟨q₁, hx₁, h₁, hq₁⟩ := h.traced i false .releaseSavepoint name
  rw [releaseSavepoint_eq, Act.exec_bind_ok (exec_heed hn false _),
    Act.exec_bind_ok (Act.exec_get _), if_neg (h.not_suppressed i), Act.exec_bind_ok hx₁]
  cases hm : nearest? name (r.marks i) with
  | none =>
    obtain ⟨e, he⟩ := h₁.not_unwoundTo hm fun t => discard (Lifecycle.commit config t)
    rw [Database.State.view_put] at he
    rw [Act.exec_bind_error he, release, hm]
    exact ⟨h₁, hq₁ ▸ hrest⟩
  | some x =>
    obtain ⟨m, below⟩ := x
    rw [release_eq hm] at hsup ⊢
    obtain ⟨q₂, hx₂, h₂, hrest₂⟩ := (pops_commit hmax (i := i)).unwoundTo h₁ hm hsup
    simp only [Database.State.view_put, Database.State.put_put] at hx₂ h₂
    rw [Act.exec_bind_ok hx₂]
    have h₃ : Leaves ts clock config.maxAncestorDepth.toNat w i _ q₂ := ⟨h₂, hrest₂⟩
    exact h₃.reported _

/-! ## The end of a transaction -/

section

variable (h : Refines ts clock config.maxAncestorDepth.toNat w r) (hrest : (w.sessions i).Rests)
include h hrest

theorem commit (hmax : 0 < config.maxAncestorDepth.toNat)
    (hsup : Supplies clock ts (r.commit ts i).taken) :
    Leaves ts clock config.maxAncestorDepth.toNat w i (r.commit ts i)
      ((Connection.commit config).exec (w.view i)).2 := by
  obtain ⟨q₁, hx₁, h₁, hq₁⟩ := h.traced i false .commit ""
  rw [commit_eq, Act.exec_bind_ok hx₁, Act.exec_bind_ok (Act.exec_get _)]
  have hleaves₁ : Leaves ts clock config.maxAncestorDepth.toNat w i r q₁ := ⟨h₁, hq₁ ▸ hrest⟩
  by_cases hms : r.marks i = []
  · have hst : q₁.1.stack = [] := by simpa using (h₁.marks_eq_nil i).1 hms
    have hcommit : r.commit ts i = r := by simp [UndoLog.commit, hms]
    rw [hcommit]
    split
    · exact hleaves₁.reported _
    · exact hleaves₁
    · next hp => exact absurd hst (hleaves₁.rests hp)
  · have hcommit : (r.commit ts i).taken = r.taken + 1 := by rw [commit_of_marks ts hms]; rfl
    rw [hcommit] at hsup
    obtain ⟨e, q₂, hbottom, hx₂, h₂, hidle⟩ := h₁.droppedAll hms hmax hsup
    simp only [Database.State.view_put, Database.State.put_put] at hx₂ h₂
    rw [Database.State.sessions_put] at hbottom
    have hst : q₁.1.stack ≠ [] := fun hn => hms ((h₁.marks_eq_nil i).2 (by simpa using hn))
    have hph := h₁.active_of_stack (i := i) (by simpa using hst)
    rw [Database.State.sessions_put] at hph
    rw [hph]
    dsimp only
    rw [hbottom]
    dsimp only
    rw [Act.exec_bind_ok hx₂]
    have h₃ : Leaves ts clock config.maxAncestorDepth.toNat w i _ q₂ :=
      ⟨h₂, fun hp => by rw [hidle] at hp; cases hp⟩
    exact h₃.reported _

/-- An abort succeeds. -/
theorem exec_abort (hsup : Supplies clock ts r.taken) :
    ∃ q, Connection.abort.exec (w.view i) = (.ok (), q) ∧
      Leaves ts clock config.maxAncestorDepth.toNat w i (r.abort i) q ∧ q.1.stack = [] ∧
      q.1.phase ≠ .active := by
  obtain ⟨q₁, hx₁, h₁, hq₁⟩ := h.traced i false .abort ""
  rw [abort_eq, Act.exec_bind_ok hx₁, Act.exec_bind_ok (Act.exec_get _), ← h.popUndo_all]
  have hlen := h₁.length_marks i
  rw [Database.State.sessions_put] at hlen
  by_cases hph : q₁.1.phase = .active
  · obtain ⟨q₂, hx₂, h₂⟩ := (pops_undo (i := i)).unwound h₁ (Nat.le_refl _)
      (by rw [h.popUndo_all]; exact hsup)
    simp only [Database.State.view_put, Database.State.put_put] at hx₂ h₂
    have hq₂ := (unwind_ok hx₂).2
    have hst : q₂.1.stack = [] := by rw [hq₂, ← hlen, List.drop_length]
    have ht := h₂.tracks i
    rw [Database.State.sessions_put] at ht
    have hph₂ : q₂.1.phase = .active := by rw [hq₂, hph]
    have hopen : (((popUndo i)^[(r.marks i).length] r).clients i).closed = false := by
      rw [← Bool.not_eq_true, ← ht.closed, hph₂]
      decide
    have h₃ := h₂.altered i { q₂.1 with phase := .idle } (by simp)
      (fun _ => by simpa using hst) rfl
      ⟨ht.name, ht.suppressed, by simp [hopen], ht.stack⟩
    rw [Function.update_eq_self, Database.State.put_put] at h₃
    obtain ⟨q₄, hx₄, h₄, hq₄⟩ := Refines.traced h₃ i true .abort ""
    rw [Database.State.put_put] at h₄
    rw [Database.State.view_put] at hx₄
    rw [Database.State.sessions_put] at hq₄
    have hph₄ : q₄.1.phase = .idle := by rw [hq₄]
    refine ⟨q₄, ?_, ⟨h₄, ?_⟩, by rw [hq₄, hst], by rw [hph₄]; decide⟩
    · rw [if_neg (by simp [hph]), show q₁.1.depth = (r.marks i).length from hlen,
        Act.exec_bind_ok hx₂, Act.exec_bind_ok (exec_alter ..), ← hx₄]
      rfl
    · intro hp
      rw [hph₄] at hp
      cases hp
  · have hst : q₁.1.stack = [] := by
      have hs := (h₁.orderly.seated i).idle
      rw [Database.State.sessions_put] at hs
      exact hs hph
    have hms : r.marks i = [] := (h₁.marks_eq_nil i).2 (by simpa using hst)
    rw [if_pos (by simpa using hph), hms]
    exact ⟨q₁, rfl, ⟨h₁, hq₁ ▸ hrest⟩, hst, hph⟩

theorem close (hsup : Supplies clock ts r.taken) :
    Leaves ts clock config.maxAncestorDepth.toNat w i (r.close i)
      (Connection.close.exec (w.view i)).2 := by
  obtain ⟨q, hx, hq, hst, hph⟩ := h.exec_abort hrest hsup
  have ht := hq.refines.tracks i
  rw [Database.State.sessions_put] at ht
  have h₂ := hq.refines.altered i { q.1 with phase := .closed }
    (k := { (r.abort i).clients i with closed := true }) (by simp) (fun _ => by simpa using hst) rfl
    ⟨ht.name, ht.suppressed, by simp, ht.stack⟩
  rw [Database.State.put_put] at h₂
  rw [Connection.close, Act.exec_bind_ok hx, exec_alter]
  exact ⟨h₂, fun hp => by cases hp⟩

end

/-! ## Statements -/

/-- The answer of a closed session. -/
theorem exec_activeTxn_closed (h : Refines ts clock max w r) (hcl : (r.clients i).closed = true) :
    (activeTxn config).exec (w.view i) = (.error .closed, w.view i) := by
  have hph : (w.view i).1.phase = .closed := (h.tracks i).closed.2 hcl
  rw [activeTxn, Act.exec_bind_error (exec_ensureActive_closed hph)]

section

variable (hts : StrictMono ts) (hiso : config.defaultIsolation = .snapshot)
  (h : Refines ts clock config.maxAncestorDepth.toNat w r) (hrest : (w.sessions i).Rests)
include hts hiso h hrest

/-- A statement of an open session runs under the leaf. -/
theorem exec_activeTxn (hopen : (r.clients i).closed = false)
    (hsup : Supplies clock ts (r.begin ts i).taken) :
    ∃ q e rest, (activeTxn config).exec (w.view i) = (.ok e.txn, q) ∧
      Refines ts clock config.maxAncestorDepth.toNat (w.put i q) (r.begin ts i) ∧
      q.1.stack = e :: rest := by
  obtain ⟨q, hx, hq, hst⟩ := h.activated hts hiso hopen hrest hsup
  obtain ⟨e, rest, hcons⟩ := List.exists_cons_of_ne_nil hst
  refine ⟨q, e, rest, ?_, hq, hcons⟩
  rw [activeTxn, Act.exec_bind_ok hx, exec_leaf_cons hcons]

theorem activeTxn (hsup : Supplies clock ts (r.begin ts i).taken) :
    Leaves ts clock config.maxAncestorDepth.toNat w i (r.begin ts i)
      ((Connection.activeTxn config).exec (w.view i)).2 := by
  cases hcl : (r.clients i).closed with
  | true =>
    rw [h.exec_activeTxn_closed hcl, begin_of_closed hcl]
    exact ⟨by rwa [Database.State.put_view], hrest⟩
  | false =>
    obtain ⟨q, e, rest, hx, hq, hst⟩ := h.exec_activeTxn hts hiso hrest hcl hsup
    rw [hx]
    exact ⟨hq, fun _ hn => by rw [hst] at hn; cases hn⟩

/-- A write puts a version of the leaf at the end of the log. -/
theorem write {db : Database} (hdb : db.config = config)
    (hsup : Supplies clock ts (r.begin ts i).taken) (table : Table) (key : Key)
    (value : Option Bytes) :
    Leaves ts clock config.maxAncestorDepth.toNat w i (r.write ts i key value)
      ((Session.write db table key value).exec (w.view i)).2 := by
  obtain ⟨q₁, hx₁, h₁, hq₁⟩ := h.traced i false .elevate table
  have hrest₁ : q₁.1.Rests := hq₁ ▸ hrest
  rw [Session.write_eq, hdb]
  cases hcl : (r.clients i).closed with
  | true =>
    have hph : q₁.1.phase = .closed := by rw [hq₁, (h.tracks i).closed, hcl]
    have hx : (elevate config table).exec (w.view i) = (.error .closed, q₁) := by
      rw [elevate_eq, Act.exec_bind_ok hx₁, Act.exec_bind_error (exec_ensureActive_closed hph)]
    rw [Session.onConnection, Act.exec_bind, Act.exec_wrap, hx, write_of_closed hcl]
    exact ⟨h₁, hrest₁⟩
  | false =>
    obtain ⟨q₂, hx₂, h₂, hst₂⟩ := h₁.activated (i := i) hts hiso hcl (by simpa using hrest₁) hsup
    simp only [Database.State.view_put, Database.State.put_put] at hx₂ h₂
    obtain ⟨q₃, hx₃, h₃, hst₃⟩ := h₂.elevated (i := i) config (by simpa using hst₂) table
    simp only [Database.State.view_put, Database.State.put_put] at hx₃ h₃
    obtain ⟨q₄, hx₄, h₄, hq₄⟩ := h₃.traced i true .elevate table
    simp only [Database.State.view_put, Database.State.put_put] at hx₄ h₄
    rw [Database.State.sessions_put] at hq₄
    obtain ⟨e, rest, hst₄⟩ := List.exists_cons_of_ne_nil (hq₄ ▸ hst₃)
    have hx : (elevate config table).exec (w.view i) = (.ok e.txn, q₄) := by
      rw [elevate_eq, Act.exec_bind_ok hx₁, Act.exec_bind_ok hx₂, Act.exec_bind_ok hx₃,
        Act.exec_bind_ok hx₄, exec_leaf_cons hst₄]
    obtain ⟨s', hx₅, h₅⟩ := h₄.written (i := i) (by simpa using hst₄) key value
    simp only [Database.State.view_put, Database.State.put_put,
      Database.State.sessions_put] at hx₅ h₅
    rw [Session.onConnection, Act.exec_bind, Act.exec_wrap, hx, write_of_open hcl]
    change Leaves ts clock config.maxAncestorDepth.toNat w i _
      ((Session.store key value e.txn.id).exec q₄).2
    rw [hx₅]
    exact ⟨h₅, fun _ hn => by rw [hst₄] at hn; cases hn⟩

end

end Refines

end UndoLog

end NestedTxn
