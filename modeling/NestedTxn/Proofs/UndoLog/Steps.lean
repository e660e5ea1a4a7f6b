import NestedTxn.Proofs.Connection.Resting
import NestedTxn.Proofs.Connection.Success
import NestedTxn.Proofs.UndoLog.Refinement

/-!
# Steps of calls do what the undo log does

* `Refines.activated`: the connection of an open session begins if it has to.
* `Refines.grown`: a child of the leaf is pushed, if the stack is not too high.
* `Refines.droppedCommit`, `droppedUndo`: the top entry is committed or rolled back,
  `droppedAll`: the bottom entry is committed.
  `Pops.unwound`, `Pops.unwoundTo`: the same for several entries, down to one with a name.
* `Refines.elevated`: the entries become writable.

Each of them succeeds, as long as the clock supplies the timestamps that the log takes.
-/

namespace NestedTxn

namespace UndoLog

open Connection Services

variable {ts : Nat → Timestamp} {clock : Clock} {config : Config} {max : Nat} {w : Database.State}
  {r : UndoLog} {i : Nat}

/-! ## What entries and marks share -/

theorem marks_bare {e : Savepoint} {m : Mark} : Marks e.bare m ↔ Marks e m :=
  ⟨fun h => ⟨h.name, h.begun, h.isolation⟩, fun h => ⟨h.name, h.begun, h.isolation⟩⟩

/-- Destinations do not matter. -/
theorem forall₂_marks_congr {st st' : List Savepoint} {ms : List Mark}
    (hb : st'.map Savepoint.bare = st.map Savepoint.bare) (h : List.Forall₂ Marks st ms) :
    List.Forall₂ Marks st' ms := by
  have hbare : ∀ st, List.Forall₂ Marks st ms ↔ List.Forall₂ Marks (st.map Savepoint.bare) ms := by
    intro st
    rw [List.forall₂_map_left_iff]
    exact ⟨fun h => h.imp fun _ _ => marks_bare.2, fun h => h.imp fun _ _ => marks_bare.1⟩
  rw [hbare, hb, ← hbare]
  exact h

/-- The nearest entry of a name has the nearest mark of that name. -/
theorem below?_eq {st : List Savepoint} {ms : List Mark} (h : List.Forall₂ Marks st ms)
    (name : String) : below? name st = (nearest? name ms).map fun x => x.2.length := by
  induction h with
  | nil => rfl
  | cons hem hrest ih =>
    rw [below?, nearest?, hem.name]
    split
    · rw [Option.map_some, hrest.length_eq]
    · exact ih

namespace Refines

section

variable (h : Refines ts clock max w r)
include h

theorem length_marks (i : Nat) : (w.sessions i).stack.length = (r.marks i).length :=
  (h.tracks i).stack.length_eq

theorem marks_eq_nil (i : Nat) : r.marks i = [] ↔ (w.sessions i).stack = [] := by
  rw [← List.length_eq_zero_iff, ← h.length_marks, List.length_eq_zero_iff]

/-- The stack of a session with marks. -/
theorem stack_eq_cons {m : Mark} {below : List Mark} (hms : r.marks i = m :: below) :
    ∃ e rest, (w.sessions i).stack = e :: rest ∧ Marks e m ∧ rest.length = below.length := by
  have hstack := (h.tracks i).stack
  rw [show (r.clients i).marks = m :: below from hms] at hstack
  obtain ⟨e, rest, hem, hrest, hst⟩ := List.forall₂_cons_right_iff.1 hstack
  exact ⟨e, rest, hst, hem, hrest.length_eq⟩

theorem open_of_stack (hst : (w.sessions i).stack ≠ []) : (r.clients i).closed = false := by
  cases hcl : (r.clients i).closed with
  | false => rfl
  | true =>
    have hph := (h.tracks i).closed.2 hcl
    exact absurd ((h.orderly.seated i).idle (by rw [hph]; decide)) hst

/-- Only an active connection has entries. -/
theorem active_of_stack (hst : (w.sessions i).stack ≠ []) : (w.sessions i).phase = .active := by
  by_contra hp
  exact hst ((h.orderly.seated i).idle hp)

omit h

/-- The state of the connection may be reported. -/
theorem traced (h : Refines ts clock max w r) (i : Nat) (done : Bool) (call : ConnectionCall)
    (subject : String) :
    ∃ q, (Connection.trace done call subject).exec (w.view i) = (.ok (), q) ∧
      Refines ts clock max (w.put i q) r ∧ q.1 = w.sessions i :=
  ⟨_, exec_trace .., h.reported i _, rfl⟩

/-- A connection whose stack ran empty rests. -/
theorem settled (h : Refines ts clock max w r) :
    Refines ts clock max (w.put i ((w.sessions i).settle, w.services)) r := by
  have ht := h.tracks i
  have hn := h.altered i _ (k := r.clients i) (settle_stack _) (fun hp => ?_) rfl
    ⟨?_, ?_, ?_, by rw [settle_stack]; exact ht.stack⟩
  · rwa [Function.update_eq_self] at hn
  · rw [settle] at hp
    split at hp
    · next he => simpa using he.1
    · exact (h.orderly.seated i).idle hp
  · rw [settle_name]
    exact ht.name
  · rw [settle_suppressed]
    exact ht.suppressed
  · rw [← ht.closed, settle]
    split
    · next he => simp [he.2]
    · rfl

end

/-! ## Entries that come -/

section

variable (hts : StrictMono ts) (hiso : config.defaultIsolation = .snapshot)
  (h : Refines ts clock config.maxAncestorDepth.toNat w r) (hopen : (r.clients i).closed = false)
include hts h hopen

include hiso in
/-- The connection of an open session begins if it has to. -/
theorem activated (hrest : (w.sessions i).Rests)
    (hsup : Supplies clock ts (r.begin ts i).taken) :
    ∃ q, (ensureActive config).exec (w.view i) = (.ok (), q) ∧
      Refines ts clock config.maxAncestorDepth.toNat (w.put i q) (r.begin ts i) ∧
        q.1.stack ≠ [] := by
  have hseated := h.orderly.seated i
  rcases hp : (w.sessions i).phase with _ | _ | _
  · -- a new root is the only entry
    have hst : (w.sessions i).stack = [] := hseated.idle (by rw [hp]; decide)
    have hms : r.marks i = [] := (h.marks_eq_nil i).2 hst
    have hbegin : r.begin ts i = r.push ts i (r.clients i).name := by rw [begin, hopen, hms]
    rw [hbegin] at hsup ⊢
    have hr := h.next_reading hsup (Nat.lt_succ_self _)
    have hf := h.next_fresh hts
    obtain ⟨s', hx, hs', hclock⟩ := exec_ensureActive_idle (p := w.view i) config hp
      h.orderly.sane.ledgerUp hr hf
    have hm := (ensureActive_shifts config (w.view i)).moves h.orderly.sane.sound hseated
    rw [hx] at hm
    refine ⟨_, hx, ?_, List.cons_ne_nil _ _⟩
    rw [← (h.tracks i).name]
    exact h.pushed hm hf rfl rfl hiso hs' hclock rfl hopen
  · have hst := hrest hp
    have hms : r.marks i ≠ [] := fun hn => hst ((h.marks_eq_nil i).1 hn)
    refine ⟨w.view i, exec_ensureActive_active hp, ?_, hst⟩
    rwa [begin_of_marks hms, Database.State.put_view]
  · have hcl := (h.tracks i).closed.1 hp
    rw [hopen] at hcl
    cases hcl

end

/-- A child of the leaf is pushed. -/
theorem grown (hts : StrictMono ts) (h : Refines ts clock config.maxAncestorDepth.toNat w r)
    (hst : (w.sessions i).stack ≠ [])
    (hd : (r.marks i).length ≤ config.maxAncestorDepth.toNat)
    (hsup : Supplies clock ts (r.taken + 1)) (name : String) :
    ∃ q, (pushChild config name).exec (w.view i) = (.ok (), q) ∧
      Refines ts clock config.maxAncestorDepth.toNat (w.put i q) (r.push ts i name) ∧
      q.1.stack ≠ [] := by
  have hseated := h.orderly.seated i
  obtain ⟨e, rest, hcons⟩ := List.exists_cons_of_ne_nil hst
  have hlen := h.length_marks i
  rw [hcons, List.length_cons] at hlen
  have hf := h.next_fresh hts
  have hlow : rest.length < config.maxAncestorDepth.toNat := by omega
  obtain ⟨t, s', hx, hid, hb, hi, hs', hclock⟩ := exec_pushChild (p := w.view i)
    h.orderly.sane.sound hseated hcons h.orderly.sane.ledgerUp
    (h.next_reading hsup (Nat.lt_succ_self _)) hf hlow name
  have hm := (pushChild_shifts config name (w.view i)).moves h.orderly.sane.sound hseated
  rw [hx] at hm
  have hiso : e.txn.isolation = .snapshot := by
    obtain ⟨m, below, hms⟩ := List.exists_cons_of_ne_nil fun hn => hst ((h.marks_eq_nil i).1 hn)
    obtain ⟨e', rest', hst', hem, _⟩ := h.stack_eq_cons hms
    rw [hcons] at hst'
    cases hst'
    exact hem.isolation
  refine ⟨_, hx, ?_, List.cons_ne_nil _ _⟩
  refine h.pushed hm (by rw [hid, hf]) hid hb (hi.trans hiso) hs' hclock ?_ (h.open_of_stack hst)
  change (w.sessions i).push name t = _
  rw [Connection.push, ← h.active_of_stack hst]

/-- A stack that is too high does not grow. -/
theorem not_grown (h : Refines ts clock config.maxAncestorDepth.toNat w r)
    (hst : (w.sessions i).stack ≠ [])
    (hd : config.maxAncestorDepth.toNat < (r.marks i).length) (name : String) :
    ∃ e, (pushChild config name).exec (w.view i) = (.error e, w.view i) := by
  obtain ⟨e, rest, hcons⟩ := List.exists_cons_of_ne_nil hst
  have hlen := h.length_marks i
  rw [hcons, List.length_cons] at hlen
  have hhigh : config.maxAncestorDepth.toNat ≤ rest.length := by omega
  exact ⟨_, exec_pushChild_refused (p := w.view i) h.orderly.sane.sound (h.orderly.seated i) hcons
    hhigh name⟩

/-! ## Entries that go -/

section

variable (h : Refines ts clock config.maxAncestorDepth.toNat w r) (hms : r.marks i ≠ [])
include h hms

/-- The top entry is committed. -/
theorem droppedCommit (hmax : 0 < config.maxAncestorDepth.toNat)
    (hsup : Supplies clock ts (r.taken + 1)) :
    ∃ q, (dropTop fun t => discard (Lifecycle.commit config t)).exec (w.view i) = (.ok (), q) ∧
      Refines ts clock config.maxAncestorDepth.toNat (w.put i q) (r.popCommit ts i) := by
  have hseated := h.orderly.seated i
  obtain ⟨m, below, hcons⟩ := List.exists_cons_of_ne_nil hms
  obtain ⟨e, rest, hst, _, hlen⟩ := h.stack_eq_cons hcons
  obtain ⟨u, g, s', hx, hu, hs', hclock⟩ := exec_dropTop_commit (p := w.view i) hseated
    h.orderly.sane.ledgerUp hst (h.next_reading hsup (Nat.lt_succ_self _)) hmax
  have hm := (dropTop_shifts (commit_drops config) (w.view i)).moves h.orderly.sane.sound hseated
  rw [hx] at hm
  refine ⟨_, hx, ?_⟩
  cases below with
  | nil =>
    -- the bottom entry was the last one
    have hrest : rest = [] := List.length_eq_zero_iff.1 hlen
    subst hrest
    have hlast : (w.sessions i).stack.getLast? = some e := by rw [hst]; rfl
    have hroot := hseated.stacked.root_getLast? hlast hu
    have hpop : r.popCommit ts i = ((r.setMarks i []).take 1).publish i (ts r.taken) := by
      rw [popCommit, hcons, ← commit_of_marks ts hms]
    rw [hpop]
    exact h.committedAll hlast (h.tracks_rest hst hcons) hm hu hroot hs' hclock
  | cons m' below =>
    have hrest : rest ≠ [] := fun hn => by simp [hn] at hlen
    have hpop : r.popCommit ts i = (r.setMarks i (m' :: below)).take 1 := by rw [popCommit, hcons]
    rw [hpop]
    exact h.committedTop hst hcons hm hu hrest hs' hclock

/-- The bottom entry is committed. -/
theorem droppedAll (hmax : 0 < config.maxAncestorDepth.toNat)
    (hsup : Supplies clock ts (r.taken + 1)) :
    ∃ e q, (w.sessions i).bottom? = some e ∧
      (dropAll config e).exec (w.view i) = (.ok (ts r.taken), q) ∧
      Refines ts clock config.maxAncestorDepth.toNat (w.put i q) (r.commit ts i) ∧
      q.1.phase = .idle := by
  have hseated := h.orderly.seated i
  have hst : (w.sessions i).stack ≠ [] := fun hn => hms ((h.marks_eq_nil i).2 hn)
  have hlast := List.getLast?_eq_some_getLast hst
  have hbottom : (w.sessions i).bottom? = some ((w.sessions i).stack.getLast hst).txn := by
    unfold bottom?
    rw [hlast, Option.map_some]
  obtain ⟨u, g, s', hx, hu, hroot, hs', hclock⟩ := exec_dropAll (p := w.view i) hseated
    h.orderly.sane.ledgerUp hlast (h.next_reading hsup (Nat.lt_succ_self _)) hmax
  obtain ⟨e, v, _, _, _, hx', hcleared⟩ :=
    (dropAll_cases config (p := w.view i) hbottom).resolve_left fun ⟨_, _, hx', _⟩ => by
      rw [hx] at hx'
      cases hx'
  rw [hx] at hx'
  cases hx'
  have hm := hcleared.moves h.orderly.sane.sound hseated
  refine ⟨_, _, hbottom, hx, ?_, rfl⟩
  rw [commit_of_marks ts hms]
  have ht := h.tracks i
  refine h.committedAll hlast ?_ hm hu hroot hs' hclock
  exact ⟨ht.name, ht.suppressed, by simp [h.open_of_stack hst], .nil⟩

/-- The top entry is rolled back. -/
theorem droppedUndo :
    ∃ q, (dropTop Lifecycle.rollback).exec (w.view i) = (.ok (), q) ∧
      Refines ts clock config.maxAncestorDepth.toNat (w.put i q) (r.popUndo i) := by
  have hseated := h.orderly.seated i
  obtain ⟨m, below, hcons⟩ := List.exists_cons_of_ne_nil hms
  obtain ⟨e, rest, hst, _, _⟩ := h.stack_eq_cons hcons
  obtain ⟨u, s', hx, hu, hs', hclock⟩ := exec_dropTop_rollback (p := w.view i)
    h.orderly.sane.ledgerUp hseated.perched hst
  have hm := (dropTop_shifts rollback_drops (w.view i)).moves h.orderly.sane.sound hseated
  rw [hx] at hm
  have hpop : r.popUndo i = (r.undo i m.since).setMarks i below := by rw [popUndo, hcons]
  refine ⟨_, hx, ?_⟩
  rw [hpop]
  exact h.undoneTop hst hcons hm hu hs' hclock

end

end Refines

/-- How the log removes the top entry of session `i`, when a stack ends it with `finish`. -/
structure Pops (ts : Nat → Timestamp) (clock : Clock) (max : Nat) (i : Nat)
    (finish : Txn → Act Services TxnError Unit) (pop : UndoLog → UndoLog) : Prop where
  marks : ∀ r : UndoLog, (pop r).marks i = (r.marks i).tail
  taken : ∀ r : UndoLog, r.marks i ≠ [] → r.taken ≤ (pop r).taken
  step : ∀ {w r}, Refines ts clock max w r → r.marks i ≠ [] → Supplies clock ts (pop r).taken →
    ∃ q, (dropTop finish).exec (w.view i) = (.ok (), q) ∧ Refines ts clock max (w.put i q) (pop r)

theorem pops_commit (hmax : 0 < config.maxAncestorDepth.toNat) :
    Pops ts clock config.maxAncestorDepth.toNat i (fun t => discard (Lifecycle.commit config t))
      (popCommit ts i) where
  marks _ := marks_popCommit
  taken _ hms := by
    rw [taken_popCommit hms]
    exact Nat.le_succ _
  step h hms hsup := h.droppedCommit hms hmax (by rwa [taken_popCommit hms] at hsup)

theorem pops_undo :
    Pops ts clock config.maxAncestorDepth.toNat i Lifecycle.rollback (popUndo i) where
  marks _ := marks_popUndo
  taken _ _ := Nat.le_of_eq taken_popUndo.symm
  step h hms _ := h.droppedUndo hms

section

variable {finish : Txn → Act Services TxnError Unit} {pop : UndoLog → UndoLog}
  (hpop : Pops ts clock max i finish pop)
include hpop

theorem Pops.taken_iterate {n : Nat} (hn : n ≤ (r.marks i).length) :
    r.taken ≤ (pop^[n] r).taken := by
  induction n generalizing r with
  | zero => exact Nat.le_refl _
  | succ n ih =>
    have hms : r.marks i ≠ [] := fun hn' => by simp [hn'] at hn
    refine (hpop.taken r hms).trans (ih ?_)
    rw [hpop.marks, List.length_tail]
    omega

/-- Several entries are ended. -/
theorem Pops.unwound (h : Refines ts clock max w r) {n : Nat} (hn : n ≤ (r.marks i).length)
    (hsup : Supplies clock ts (pop^[n] r).taken) :
    ∃ q, (unwind finish n).exec (w.view i) = (.ok (), q) ∧
      Refines ts clock max (w.put i q) (pop^[n] r) := by
  induction n generalizing w r with
  | zero => exact ⟨w.view i, rfl, by rwa [Database.State.put_view]⟩
  | succ n ih =>
    have hms : r.marks i ≠ [] := fun hn' => by simp [hn'] at hn
    have hn' : n ≤ ((pop r).marks i).length := by
      rw [hpop.marks, List.length_tail]
      omega
    obtain ⟨q, hx, hq⟩ := hpop.step h hms (hsup.mono (hpop.taken_iterate hn'))
    obtain ⟨q', hx', hq'⟩ := ih hq hn' hsup
    rw [Database.State.view_put] at hx'
    rw [Database.State.put_put] at hq'
    refine ⟨q', ?_, hq'⟩
    rw [unwind_succ, Act.exec_bind_ok hx, hx']

/-- The entries down to the nearest one of a name are ended. -/
theorem Pops.unwoundTo (h : Refines ts clock max w r) {name : String} {m : Mark} {below : List Mark}
    (hn : nearest? name (r.marks i) = some (m, below))
    (hsup : Supplies clock ts (pop^[(r.marks i).length - below.length] r).taken) :
    ∃ q, (unwindTo name finish).exec (w.view i) = (.ok (), q) ∧
      Refines ts clock max (w.put i q) (pop^[(r.marks i).length - below.length] r) ∧
      q.1.Rests := by
  have hst : (w.sessions i).stack ≠ [] := fun hnil => by
    rw [(h.marks_eq_nil i).2 hnil] at hn
    cases hn
  have hph := h.active_of_stack hst
  have hbelow : below? name (w.view i).1.stack = some below.length := by
    have hb := below?_eq (h.tracks i).stack name
    rw [show (r.clients i).marks = r.marks i from rfl, hn] at hb
    exact hb
  obtain ⟨q, hx, hq⟩ := hpop.unwound h (Nat.sub_le _ _) hsup
  have hf := exec_find_some (p := w.view i) (show (w.sessions i).phase ≠ .closed by rw [hph]; nofun)
    hbelow
  refine ⟨(q.1.settle, q.2), ?_, ?_, q.1.settle_rests⟩
  · rw [unwindTo, Act.exec_bind_ok hf, Act.exec_bind_ok (Act.exec_get _)]
    rw [← h.length_marks i] at hx
    rw [show (w.view i).1.depth = (w.sessions i).stack.length from rfl, Act.exec_bind_ok hx,
      exec_alter]
  · have hset := hq.settled (i := i)
    rwa [Database.State.put_put, Database.State.sessions_put] at hset

end

namespace Refines

/-- What is no entry of the stack is not found. -/
theorem not_unwoundTo (h : Refines ts clock max w r) {name : String}
    (hn : nearest? name (r.marks i) = none) (finish : Txn → Act Services TxnError Unit) :
    ∃ e, (unwindTo name finish).exec (w.view i) = (.error e, w.view i) := by
  have hbelow : below? name (w.view i).1.stack = none := by
    have hb := below?_eq (h.tracks i).stack name
    rw [show (r.clients i).marks = r.marks i from rfl, hn] at hb
    exact hb
  obtain ⟨e, he⟩ := exec_find_none hbelow
  exact ⟨e, by rw [unwindTo, Act.exec_bind_error he]⟩

/-! ## Writes -/

/-- The entries become writable. -/
theorem elevated (config : Config) (h : Refines ts clock config.maxAncestorDepth.toNat w r)
    (hst : (w.sessions i).stack ≠ []) (table : Table) :
    ∃ q, (elevateEntries config table).exec (w.view i) = (.ok (), q) ∧
      Refines ts clock config.maxAncestorDepth.toNat (w.put i q) r ∧ q.1.stack ≠ [] := by
  have hseated := h.orderly.seated i
  obtain ⟨st', s', hx, hr, hb⟩ := exec_elevateEntries (p := w.view i) config table hseated
    h.orderly.sane.ledgerUp
  have hm := (elevateEntries_shifts config table (w.view i)).moves h.orderly.sane.sound hseated
  rw [hx] at hm
  have ht := h.tracks i
  have hids : Connection.ids { w.sessions i with stack := st' } = (w.sessions i).ids := by
    have hi := congrArg (List.map (·.txn.id)) hb
    simpa [Function.comp_def, Savepoint.bare, ids, Database.State.view] using hi
  refine ⟨_, hx, ?_, fun hn => hst ?_⟩
  · exact h.regranted hm hr
      ⟨ht.name, ht.suppressed, ht.closed, forall₂_marks_congr hb ht.stack⟩ hids
  · have hst' : st' = [] := hn
    rw [hst'] at hb
    exact List.map_eq_nil_iff.1 hb.symm

/-- The leaf writes under the lock of the row, which nobody else holds. -/
theorem written (h : Refines ts clock max w r) {e : Savepoint} {rest : List Savepoint}
    (hst : (w.sessions i).stack = e :: rest) (key : Key) (value : Option Bytes) :
    ∃ s', (Session.store key value e.txn.id).exec (w.view i) = (.ok (), w.sessions i, s') ∧
      Refines ts clock max (w.put i (w.sessions i, s'))
        { r with
          writes := { session := i, key, value, serial := r.made } :: r.writes
          made := r.made + 1 } := by
  obtain ⟨switch, hup, hx⟩ := Session.exec_store (p := w.view i) h.orderly.sane.rowsUp key value
    e.txn.id
  have hfree : w.services.rows.locks.owner? key = none := by
    rw [RowLocks.owner?, h.locks]
    rfl
  have htake := RowLocks.take_of_free hfree e.txn.id
  have hrows : (w.view i).2.rows = w.services.rows := rfl
  rw [hrows, htake, h.poisoned] at hx
  have hstored : Session.stored w.services.rows key value e.txn.id =
      { w.services.rows with
        versions := { key, writer := some e.txn.id, value } :: w.services.rows.versions
        locks := ⟨[]⟩ } := by
    simp [Session.stored, htake, h.poisoned, RowLocks.release, RowLocks.owner?, h.locks]
  refine ⟨_, hx, ?_⟩
  rw [hstored]
  refine h.stored hst key value ?_ rfl rfl rfl rfl h.poisoned
  refine h.orderly.sane.withRows hup fun v hv => ?_
  rcases List.mem_cons.1 hv with rfl | hv
  · exact Session.leaf_truthful (h.orderly.seated i) hst key value
  · exact h.orderly.sane.versions v hv

end Refines

end UndoLog

end NestedTxn
