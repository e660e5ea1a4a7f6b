import Mathlib.Order.Monotone.Basic
import NestedTxn.Proofs.Lifecycle.Success
import NestedTxn.Proofs.Session.Safety
import NestedTxn.Proofs.UndoLog.Trace

/-!
# Databases refine undo logs

* `UndoLog.Refines ts clock max w r`: the relation between a database and the log of its sessions.
  The stack of a session has the marks of the log, versions are those that the log lacks, which are
  undone, and those of its writes, and every id is a timestamp that the log has taken.
* `UndoLog.Supplies clock ts n`: the next `n` readings of the clock are the timestamps `ts`.
* `Refines.of_moved`: what has to be said about a call that moves one connection. From it follow the
  steps that calls consist of: `Refines.pushed`, `committedTop`, `committedAll`, `undoneTop` and
  `regranted`. `Refines.stored` is the one that writes a version, and `Refines.alike` the one that
  does nothing of note.
-/

namespace NestedTxn

namespace UndoLog

open Connection Services

/-! ## The relation -/

/-- An entry of a stack has the mark `m`. -/
structure Marks (e : Savepoint) (m : Mark) : Prop where
  name : e.name = m.name
  begun : e.txn.beginTimestamp = m.begun
  isolation : e.txn.isolation = .snapshot

/-- The connection of a session of the log. -/
structure Tracks (c : Connection) (k : Client) : Prop where
  name : c.name = k.name
  suppressed : c.suppressed = false
  closed : c.phase = .closed ↔ k.closed = true
  stack : List.Forall₂ Marks c.stack k.marks

/-- Nobody will ever see the version. -/
def Undone (l : Ledger) (v : RowVersion) : Prop :=
  ∃ writer, v.writer = some writer ∧ l.Resolves writer .rolledBack

/-- What became of `writer` is what the log says about the write `x`. -/
def Stands (l : Ledger) (st : List TxnId) (ms : List Mark) (writer : TxnId) (x : Write) : Prop :=
  match x.stamp with
  | some t => l.Resolves writer (.committed t)
  | none => ∃ k, l.Chain writer k ∧ Pending st ms k x.serial

/-- The version belongs to the write. -/
structure Remains (l : Ledger) (sessions : Nat → Connection) (marks : Nat → List Mark)
    (v : RowVersion) (x : Write) : Prop where
  key : v.key = x.key
  value : v.value = x.value
  stands : ∃ writer, v.writer = some writer ∧
    Stands l (sessions x.session).ids (marks x.session) writer x

/-- The database `w` does what the log `r` says, with the timestamps `ts` from `clock`. -/
structure Refines (ts : Nat → Timestamp) (clock : Clock) (max : Nat) (w : Database.State)
    (r : UndoLog) : Prop where
  orderly : w.Orderly max
  tracks : ∀ i, Tracks (w.sessions i) (r.clients i)
  /-- Below an entry are those that were pushed earlier. -/
  sorted : ∀ i, (r.marks i).Pairwise fun m m' => m'.since ≤ m.since
  since : ∀ i, ∀ m ∈ r.marks i, m.since ≤ r.made
  serials : ∀ x ∈ r.writes, x.serial < r.made
  trace : Trace (Undone w.services.ledger) (Remains w.services.ledger w.sessions r.marks)
    w.services.rows.versions r.writes
  /-- Every id is a timestamp that was taken. -/
  recorded : ∀ id t, w.services.ledger.find? id = some t → ∃ n < r.taken, id = ts n
  reading : w.services.clock.reading = clock.reading
  taken : w.services.clock.taken = clock.taken + r.taken
  locks : w.services.rows.locks.held = []
  poisoned : w.services.rows.poisoned = false

/-- The next `n` readings of the clock. -/
def Supplies (clock : Clock) (ts : Nat → Timestamp) (n : Nat) : Prop :=
  ∀ k < n, clock.reading (clock.taken + k) = some (ts k)

theorem Supplies.mono {clock : Clock} {ts : Nat → Timestamp} {n n' : Nat}
    (h : Supplies clock ts n) (hn : n' ≤ n) : Supplies clock ts n' :=
  fun k hk => h k (Nat.lt_of_lt_of_le hk hn)

/-- The standard clock counts. -/
theorem supplies_standard {n : Nat} (hn : n < UInt64.size) : Supplies .standard (· + 1) n := by
  intro k hk
  change some ((1 + (0 + k)) % UInt64.size) = some (k + 1)
  rw [Nat.zero_add, Nat.add_comm, Nat.mod_eq_of_lt (by omega)]

variable {ts : Nat → Timestamp} {clock : Clock} {max : Nat} {w : Database.State} {r : UndoLog}
  {i : Nat} {c' : Connection} {s' : Services} {l l' : Ledger} {v : RowVersion} {x : Write}

theorem marks_update (r : UndoLog) (i : Nat) (k : Client) (xs : List Write) (n : Nat) :
    marks { r with clients := Function.update r.clients i k, writes := xs, taken := n } =
      Function.update r.marks i k.marks := by
  funext j
  dsimp only [marks]
  by_cases hj : j = i
  · rw [hj, Function.update_self, Function.update_self]
  · rw [Function.update_of_ne hj, Function.update_of_ne hj]
    rfl

section

variable {j : Nat} {ms : List Mark} {writer : TxnId} {k : List Txn} {serial : Nat}
  (hp : Pending (w.sessions j).ids ms k serial) (hw : w.Orderly max)
  (hk : w.services.ledger.Chain writer k)
include hp hw hk

/-- The root of an uncommitted write is the bottom entry of its session. -/
theorem Pending.root_mem :
    ∃ root, k.getLast? = some root ∧ root.id ∈ (w.sessions j).ids ∧ root.state = .active := by
  obtain ⟨b, hb, hbk⟩ := hp.bottom
  obtain ⟨u, hu, hid⟩ := Ledger.mem_ids.1 hbk
  exact (hw.seated j).root_mem hk ⟨u, hu, hid ▸ List.mem_of_getLast? hb⟩

/-- An uncommitted write has nothing to do with the stacks of other sessions. -/
theorem Pending.apart (hj : j ≠ i) : ∀ t ∈ k, t.id ∉ (w.sessions i).ids := by
  intro t ht hid
  obtain ⟨root, hroot, hri, _⟩ := (hw.seated i).root_mem hk ⟨t, ht, hid⟩
  obtain ⟨root', hroot', hrj, _⟩ := hp.root_mem hw hk
  rw [hroot] at hroot'
  cases hroot'
  exact hw.apart j i hj _ hrj hri

end

namespace Remains

variable {sessions : Nat → Connection} {marks : Nat → List Mark}

/-- An uncommitted write of session `i`. -/
theorem pending (h : Remains l sessions marks v x) (hx : x.isPending i = true) :
    ∃ writer k, v.writer = some writer ∧ l.Chain writer k ∧
      Pending (sessions i).ids (marks i) k x.serial := by
  obtain ⟨hi, hn⟩ : x.session = i ∧ x.stamp = none := by simpa [Write.isPending] using hx
  obtain ⟨writer, hw, hs⟩ := h.stands
  rw [Stands, hn, hi] at hs
  obtain ⟨k, hk, hp⟩ := hs
  exact ⟨writer, k, hw, hk, hp⟩

/-- It stays one. -/
theorem of_pending (h : Remains l sessions marks v x) (hx : x.isPending i = true) {writer : TxnId}
    {k : List Txn} (hw : v.writer = some writer) (hk : l'.Chain writer k) {ms : List Mark}
    (hp : Pending c'.ids ms k x.serial) :
    Remains l' (Function.update sessions i c') (Function.update marks i ms) v x := by
  obtain ⟨hi, hn⟩ : x.session = i ∧ x.stamp = none := by simpa [Write.isPending] using hx
  refine ⟨h.key, h.value, writer, hw, ?_⟩
  rw [Stands, hn, hi, Function.update_self, Function.update_self]
  exact ⟨k, hk, hp⟩

/-- What another session does changes nothing for a write, and what is published stays so. -/
theorem moved (h : Remains w.services.ledger w.sessions r.marks v x) (hw : w.Orderly max)
    (hm : Moved max (w.view i) (c', s')) (hx : x.isPending i = false) (ms : List Mark) :
    Remains s'.ledger (Function.update w.sessions i c') (Function.update r.marks i ms) v x := by
  obtain ⟨writer, hwr, hs⟩ := h.stands
  refine ⟨h.key, h.value, writer, hwr, ?_⟩
  unfold Stands at hs ⊢
  cases hst : x.stamp with
  | some t =>
    rw [hst] at hs
    exact hm.resolves hw.sane.sound (hw.seated i) hs
  | none =>
    rw [hst] at hs
    obtain ⟨k, hk, hp⟩ := hs
    have hj : x.session ≠ i := by
      intro hi
      simp [Write.isPending, hi, hst] at hx
    rw [Function.update_of_ne hj, Function.update_of_ne hj]
    have hoff := hp.apart hw hk hj
    obtain ⟨k', hk', hb⟩ := hk.kept fun t ht => hm.others t.id (hoff t ht) t (hk.find?_of_mem ht)
    exact ⟨k', hk', hp.congr hb⟩

end Remains

/-- What was undone stays so. -/
theorem Undone.moved (h : Undone w.services.ledger v) (hw : w.Orderly max)
    (hm : Moved max (w.view i) (c', s')) : Undone s'.ledger v := by
  obtain ⟨writer, hwr, hr⟩ := h
  exact ⟨writer, hwr, hm.resolves hw.sane.sound (hw.seated i) hr⟩

/-! ## Steps -/

namespace Refines

/-- The next reading of the clock. -/
theorem next_reading (h : Refines ts clock max w r) {n : Nat} (hc : Supplies clock ts n)
    (hn : r.taken < n) :
    w.services.clock.reading w.services.clock.taken = some (ts r.taken) := by
  rw [h.reading, h.taken]
  exact hc _ hn

/-- The next timestamp is new. -/
theorem next_fresh (h : Refines ts clock max w r) (hts : StrictMono ts) :
    w.services.ledger.find? (ts r.taken) = none := by
  by_contra hf
  obtain ⟨t, ht⟩ := Option.ne_none_iff_exists'.1 hf
  obtain ⟨n, hn, he⟩ := h.recorded _ _ ht
  rw [hts.injective he] at hn
  exact Nat.lt_irrefl _ hn

/-- What has to be said about a call that moves the connection of session `i`. -/
theorem of_moved (h : Refines ts clock max w r) (hm : Moved max (w.view i) (c', s')) {k : Client}
    {xs : List Write} {n : Nat} (ht : Tracks c' k)
    (hsorted : k.marks.Pairwise fun m m' => m'.since ≤ m.since)
    (hsince : ∀ m ∈ k.marks, m.since ≤ r.made) (hserials : ∀ x ∈ xs, x.serial < r.made)
    (htrace : Trace (Undone s'.ledger)
      (Remains s'.ledger (Function.update w.sessions i c') (Function.update r.marks i k.marks))
      w.services.rows.versions xs)
    (hrec : ∀ id t, s'.ledger.find? id = some t →
      (∃ u, w.services.ledger.find? id = some u) ∨ ∃ m < n, id = ts (r.taken + m))
    (htaken : s'.clock.taken = w.services.clock.taken + n) :
    Refines ts clock max (w.put i (c', s'))
      { r with
        clients := Function.update r.clients i k, writes := xs, taken := r.taken + n } := by
  have hp : Session.Proceeded max (w.view i) (c', s') :=
    Session.proceeds_of_moves (fun _ _ => hm) h.orderly.sane (h.orderly.seated i)
  have hrows : s'.rows = w.services.rows := hm.spares.rows
  refine ⟨h.orderly.put i hp, fun j => ?_, fun j => ?_, fun j => ?_, hserials, ?_, fun id t hf => ?_,
    hm.spares.reading.trans h.reading, ?_, ?_, ?_⟩
  · dsimp only [Database.State.put]
    by_cases hj : j = i
    · rw [hj, Function.update_self, Function.update_self]
      exact ht
    · rw [Function.update_of_ne hj, Function.update_of_ne hj]
      exact h.tracks j
  · dsimp only [marks]
    by_cases hj : j = i
    · rw [hj, Function.update_self]
      exact hsorted
    · rw [Function.update_of_ne hj]
      exact h.sorted j
  · dsimp only [marks]
    by_cases hj : j = i
    · rw [hj, Function.update_self]
      exact hsince
    · rw [Function.update_of_ne hj]
      exact h.since j
  · dsimp only [Database.State.put]
    rw [marks_update, hrows]
    exact htrace
  · rcases hrec id t hf with ⟨u, hu⟩ | ⟨m, hmn, he⟩
    · obtain ⟨m, hmn, he⟩ := h.recorded id u hu
      exact ⟨m, Nat.lt_add_right n hmn, he⟩
    · exact ⟨r.taken + m, Nat.add_lt_add_left hmn _, he⟩
  · dsimp only [Database.State.put]
    rw [htaken, h.taken, Nat.add_assoc]
  · rw [show (w.put i (c', s')).services.rows = _ from hrows, h.locks]
  · rw [show (w.put i (c', s')).services.rows = _ from hrows, h.poisoned]

/-- Writes that are not pending in session `i` follow any move of its connection. -/
theorem trace_moved (h : Refines ts clock max w r) (hm : Moved max (w.view i) (c', s'))
    {ms : List Mark}
    (hown : ∀ v, ∀ x ∈ r.writes, x.isPending i = true →
      Remains w.services.ledger w.sessions r.marks v x →
      Remains s'.ledger (Function.update w.sessions i c') (Function.update r.marks i ms) v x) :
    Trace (Undone s'.ledger)
      (Remains s'.ledger (Function.update w.sessions i c') (Function.update r.marks i ms))
      w.services.rows.versions r.writes := by
  refine h.trace.mono (fun v hv => hv.moved h.orderly hm) fun v x hx hr => ?_
  cases hp : x.isPending i with
  | true => exact hown v x hx hp hr
  | false => exact hr.moved h.orderly hm hp ms

/-- Destinations may change, and the client may become another one with the same marks. -/
theorem renewed (h : Refines ts clock max w r) (hm : Moved max (w.view i) (c', s'))
    (hr : w.services.Regrants s') {k : Client} (hk : k.marks = r.marks i) (ht : Tracks c' k)
    (hids : c'.ids = (w.sessions i).ids) :
    Refines ts clock max (w.put i (c', s'))
      { r with clients := Function.update r.clients i k } := by
  refine h.of_moved hm (k := k) (n := 0) ht ?_ ?_ h.serials
    (h.trace_moved hm fun v x _ hp hx => ?_) (fun id t hf => ?_) (by rw [hr.clock]; rfl)
  · rw [hk]
    exact h.sorted i
  · rw [hk]
    exact h.since i
  · obtain ⟨writer, c, hw, hc, hpend⟩ := hx.pending hp
    obtain ⟨c'', hc'', hb⟩ := hc.kept fun t ht => hr.find? (hc.find?_of_mem ht)
    refine hx.of_pending hp hw hc'' ?_
    rw [hids, hk]
    exact hpend.congr hb
  · obtain ⟨u, hu, _⟩ := hr.find?_before hf
    exact .inl ⟨u, hu⟩

/-- Destinations may change. -/
theorem regranted (h : Refines ts clock max w r) (hm : Moved max (w.view i) (c', s'))
    (hr : w.services.Regrants s') (ht : Tracks c' (r.clients i))
    (hids : c'.ids = (w.sessions i).ids) : Refines ts clock max (w.put i (c', s')) r := by
  have hn := h.renewed hm hr rfl ht hids
  rwa [Function.update_eq_self] at hn

/-- The phase of the connection may change, and the client may become another one with the same
marks. -/
theorem altered (h : Refines ts clock max w r) (i : Nat) (c' : Connection)
    (hst : c'.stack = (w.sessions i).stack)
    (hp : c'.phase ≠ .active → (w.sessions i).stack = []) {k : Client} (hk : k.marks = r.marks i)
    (ht : Tracks c' k) :
    Refines ts clock max (w.put i (c', w.services))
      { r with clients := Function.update r.clients i k } :=
  h.renewed (moves_of_stack c' hst hp h.orderly.sane.sound (h.orderly.seated i))
    (.refl w.services) hk ht (by rw [ids, hst, ids])

/-- Something may be reported. -/
theorem reported (h : Refines ts clock max w r) (i : Nat) (e : Event) :
    Refines ts clock max (w.put i ((w.view i).1, (w.view i).2.reported e)) r :=
  have hl := (reported_looks w.services e).regrants
  h.regranted (moves_of_regrants hl h.orderly.sane.sound (h.orderly.seated i)) hl (h.tracks i) rfl

/-- A new record comes onto the stack. -/
theorem pushed (h : Refines ts clock max w r) (hm : Moved max (w.view i) (c', s')) {name : String}
    {t : Txn} (hf : w.services.ledger.find? t.id = none) (hid : t.id = ts r.taken)
    (hb : t.beginTimestamp = ts r.taken) (hiso : t.isolation = .snapshot)
    (hr : w.services.Records (w.services.ledger.insert t) s')
    (hclock : s'.clock = w.services.ticked.clock)
    (hc : c' = { w.sessions i with stack := ⟨name, t⟩ :: (w.sessions i).stack, phase := .active })
    (hopen : (r.clients i).closed = false) :
    Refines ts clock max (w.put i (c', s')) (r.push ts i name) := by
  have hold := h.tracks i
  have htracks : Tracks c' { r.clients i with marks := ⟨name, r.made, ts r.taken⟩ :: r.marks i } := by
    subst hc
    exact ⟨hold.name, hold.suppressed, by simp [hopen], .cons ⟨rfl, hb, hiso⟩ hold.stack⟩
  refine h.of_moved hm htracks (List.pairwise_cons.2 ⟨h.since i, h.sorted i⟩) (fun m hmem => ?_)
    h.serials (h.trace_moved hm fun v x hx hp hrem => ?_) (fun id u hu => ?_) ?_
  · rcases List.mem_cons.1 hmem with rfl | hmem
    · exact Nat.le_refl _
    · exact h.since i m hmem
  · obtain ⟨writer, k, hw, hk, hpend⟩ := hrem.pending hp
    have hnew : ∀ u ∈ k, t.id ≠ u.id := fun u hu he => by
      rw [he, hk.find?_of_mem hu] at hf
      cases hf
    have hk' : s'.ledger.Chain writer k := by
      refine hk.of_find? fun u hu hfu => ?_
      rw [hr.find?, Ledger.find?_insert, if_neg (hnew u hu), hfu]
    have hids : c'.ids = t.id :: (w.sessions i).ids := by rw [hc]; rfl
    refine hrem.of_pending hp hw hk' ?_
    rw [hids]
    refine hpend.push (fun hm => ?_) (h.serials x hx)
    obtain ⟨u, hu, he⟩ := Ledger.mem_ids.1 hm
    exact hnew u hu he.symm
  · rw [hr.find?, Ledger.find?_insert] at hu
    split at hu
    · next he => exact .inr ⟨0, Nat.one_pos, by rw [← he, hid]; rfl⟩
    · exact .inl ⟨u, hu⟩
  · rw [hclock]
    rfl

/-! ### Entries that leave the stack -/

section

variable {u : Txn} {o : Outcome} (hu : w.services.ledger.find? u.id = some u)
  (hr : w.services.Records (w.services.ledger.replace (u.finish o)) s')
include hu hr

/-- The chain of a writer after a record was finished. -/
theorem chain_finished {writer : TxnId} {k : List Txn}
    (hk : w.services.ledger.Chain writer k) :
    s'.ledger.Chain writer (k.map (u.afterFinish o)) :=
  hk.finished hu fun id => hr.find? id

omit hu in
/-- A record that was finished was there before. -/
theorem recorded_finished {id : TxnId} {t : Txn} (ht : s'.ledger.find? id = some t) :
    ∃ v, w.services.ledger.find? id = some v := by
  rw [hr.find?, Ledger.find?_replace] at ht
  split at ht
  · obtain ⟨v, hv, _⟩ := Option.map_eq_some_iff.1 ht
    exact ⟨v, hv⟩
  · exact ⟨t, ht⟩

end

section

variable {e : Savepoint} {rest : List Savepoint} {m : Mark} {below : List Mark} {u : Txn}

/-- The connection without its top entry. -/
theorem tracks_rest (h : Refines ts clock max w r) (hst : (w.sessions i).stack = e :: rest)
    (hms : r.marks i = m :: below) :
    Tracks { w.sessions i with stack := rest } { r.clients i with marks := below } := by
  have ht := h.tracks i
  have hstack := ht.stack
  rw [hst, show (r.clients i).marks = m :: below from hms] at hstack
  exact ⟨ht.name, ht.suppressed, ht.closed, (List.forall₂_cons.1 hstack).2⟩

variable (h : Refines ts clock max w r) (hst : (w.sessions i).stack = e :: rest)
  (hms : r.marks i = m :: below)
  (hm : Moved max (w.view i) ({ w.sessions i with stack := rest }, s'))
  (hu : w.services.ledger.find? e.txn.id = some u)
include h hst hms hm hu

/-- The top entry is committed, and is not the bottom one. -/
theorem committedTop (hrest : rest ≠ []) {t : Timestamp} {g : Option Timestamp}
    (hr : w.services.Records (w.services.ledger.replace (u.finish (.committed t g))) s')
    (hclock : s'.clock = w.services.ticked.clock) :
    Refines ts clock max (w.put i ({ w.sessions i with stack := rest }, s'))
      ((r.setMarks i below).take 1) := by
  have huid := Ledger.id_of_find? hu
  have hu' : w.services.ledger.find? u.id = some u := by rw [huid, hu]
  have hsorted := h.sorted i
  have hsince := h.since i
  rw [hms] at hsorted hsince
  refine h.of_moved hm (h.tracks_rest hst hms) (List.pairwise_cons.1 hsorted).2
    (fun m' hm' => hsince m' (List.mem_cons_of_mem _ hm')) h.serials
    (h.trace_moved hm fun v x _ hp hx => ?_) (fun id t' ht' => .inl (recorded_finished hr ht')) ?_
  · obtain ⟨writer, k, hw, hk, hpend⟩ := hx.pending hp
    rw [ids, hst, List.map_cons, hms, ← huid] at hpend
    exact hx.of_pending hp hw (chain_finished hu' hr hk)
      (hpend.commitTop (by simpa using hrest) t g)
  · rw [hclock]
    rfl

/-- The top entry is rolled back. -/
theorem undoneTop (hr : w.services.Records (w.services.ledger.replace (u.finish .rolledBack)) s')
    (hclock : s'.clock = w.services.clock) :
    Refines ts clock max (w.put i ({ w.sessions i with stack := rest }, s'))
      ((r.undo i m.since).setMarks i below) := by
  have huid := Ledger.id_of_find? hu
  have hu' : w.services.ledger.find? u.id = some u := by rw [huid, hu]
  have hsorted := h.sorted i
  have hsince := h.since i
  rw [hms] at hsorted hsince
  refine h.of_moved hm (n := 0) (h.tracks_rest hst hms) (List.pairwise_cons.1 hsorted).2
    (fun m' hm' => hsince m' (List.mem_cons_of_mem _ hm'))
    (fun x hx => h.serials x (List.mem_of_mem_filter hx))
    (h.trace.filter (fun v hv => hv.moved h.orderly hm) _ fun v x hx => ?_)
    (fun id t' ht' => .inl (recorded_finished hr ht')) (by rw [hclock]; rfl)
  cases hp : x.isPending i with
  | false => exact hx.moved h.orderly hm hp below
  | true =>
    obtain ⟨writer, k, hw, hk, hpend⟩ := hx.pending hp
    have hk' := chain_finished hu' hr hk
    rw [ids, hst, List.map_cons, hms, ← huid] at hpend
    by_cases hle : m.since ≤ x.serial
    · obtain ⟨t, ht, htr⟩ := hpend.undone hle
      have hun : Undone s'.ledger v :=
        ⟨writer, hw, _, .rolledBack, hk', (hk'.effectiveState_eq_rolledBack hm.sound).2 ⟨t, ht, htr⟩,
          rfl⟩
      simpa [hle] using hun
    · have hrem : Remains s'.ledger (Function.update w.sessions i { w.sessions i with stack := rest })
          (Function.update r.marks i below) v x :=
        hx.of_pending hp hw hk' (hpend.undoTop (by omega) .rolledBack)
      simpa [hle] using hrem

end

/-- The bottom entry is committed, and the stack is cleared. -/
theorem committedAll (h : Refines ts clock max w r) {e : Savepoint} {u : Txn}
    (hst : (w.sessions i).stack.getLast? = some e)
    (ht : Tracks c' { r.clients i with marks := [] }) (hm : Moved max (w.view i) (c', s'))
    (hu : w.services.ledger.find? e.txn.id = some u) (hroot : u.parent = none) {t : Timestamp}
    {g : Option Timestamp}
    (hr : w.services.Records (w.services.ledger.replace (u.finish (.committed t g))) s')
    (hclock : s'.clock = w.services.ticked.clock) :
    Refines ts clock max (w.put i (c', s')) (((r.setMarks i []).take 1).publish i t) := by
  have huid := Ledger.id_of_find? hu
  have hu' : w.services.ledger.find? u.id = some u := by rw [huid, hu]
  refine h.of_moved hm ht .nil (fun m hm => by cases hm) (fun x hx => ?_)
    (h.trace.map (fun v hv => hv.moved h.orderly hm) _ fun v x hx => ?_)
    (fun id t' ht' => .inl (recorded_finished hr ht')) (by rw [hclock]; rfl)
  · obtain ⟨y, hy, rfl⟩ := List.mem_map.1 hx
    split <;> exact h.serials y hy
  · cases hp : x.isPending i with
    | false =>
      have hx' := hx.moved h.orderly hm hp []
      simpa [hp] using hx'
    | true =>
      obtain ⟨writer, k, hw, hk, hpend⟩ := hx.pending hp
      have hk' := chain_finished hu' hr hk
      have hlast : (w.sessions i).ids.getLast? = some u.id := by
        rw [ids, List.getLast?_map, hst, huid]
        rfl
      rw [if_pos rfl]
      exact ⟨hx.key, hx.value, writer, hw, _, _, hk',
        hpend.published hlast hroot hm.sound hk', rfl⟩

/-! ### Versions -/

/-- What a leaf writes now is uncommitted: every entry was pushed before. -/
theorem pending_leaf (h : Refines ts clock max w r) {e : Savepoint} {rest : List Savepoint}
    (hst : (w.sessions i).stack = e :: rest) :
    ∃ k, w.services.ledger.Chain e.txn.id k ∧
      Pending (w.sessions i).ids (r.marks i) k r.made := by
  have hseated := h.orderly.seated i
  have hstack := hseated.stacked
  rw [hst] at hstack
  obtain ⟨t, k, hk, hid, _, hb⟩ := Session.leaf_chain hseated hst
  have hids : Ledger.ids (t :: k) = (w.sessions i).ids := by
    rw [ids, hst]
    exact Ledger.Stacked.ids_of_bare hb
  refine ⟨t :: k, hid ▸ hk, fun v hv hr => ?_, fun v hv => .inl ?_, ?_, ?_⟩
  · rw [hstack.chain_state hb hv] at hr
    cases hr
  · rw [← hids]
    exact Ledger.mem_ids.2 ⟨v, hv, rfl⟩
  · refine ⟨_, List.getLast?_eq_some_getLast (by simp [ids, hst]), ?_⟩
    rw [hids]
    exact List.getLast_mem _
  · rw [ids, List.forall₂_map_left_iff, hids]
    refine List.forall₂_iff_zip.2 ⟨(h.tracks i).stack.length_eq, fun hz => ?_⟩
    obtain ⟨hd, hm⟩ := List.of_mem_zip hz
    exact ⟨fun _ => h.since i _ hm, fun _ => List.mem_map_of_mem hd⟩

/-- A leaf writes. -/
theorem stored (h : Refines ts clock max w r) {e : Savepoint} {rest : List Savepoint}
    (hst : (w.sessions i).stack = e :: rest) (key : Key) (value : Option Bytes)
    (hs : s'.Sane max) (hl : s'.ledger = w.services.ledger) (hc : s'.clock = w.services.clock)
    (hv : s'.rows.versions = { key, writer := some e.txn.id, value } :: w.services.rows.versions)
    (hlocks : s'.rows.locks.held = []) (hp : s'.rows.poisoned = false) :
    Refines ts clock max (w.put i (w.sessions i, s'))
      { r with
        writes := { session := i, key, value, serial := r.made } :: r.writes
        made := r.made + 1 } := by
  have hproc : Session.Proceeded max (w.view i) (w.sessions i, s') :=
    ⟨hs, w.services, Moves.refl max (w.view i) h.orderly.sane.sound (h.orderly.seated i), by rw [hl]⟩
  have hsess : (w.put i (w.sessions i, s')).sessions = w.sessions := by
    simp [Database.State.put]
  refine ⟨h.orderly.put i hproc, ?_, h.sorted, fun j m hm => Nat.le_succ_of_le (h.since j m hm),
    fun x hx => ?_, ?_, ?_, ?_, ?_, hlocks, hp⟩
  · rw [hsess]
    exact h.tracks
  · rcases List.mem_cons.1 hx with rfl | hx
    · exact Nat.lt_succ_self _
    · exact Nat.lt_succ_of_lt (h.serials x hx)
  · rw [hsess]
    dsimp only [Database.State.put]
    rw [hl, hv]
    obtain ⟨k, hk, hpend⟩ := h.pending_leaf hst
    exact .keep ⟨rfl, rfl, e.txn.id, rfl, k, hk, hpend⟩ h.trace
  · intro id t ht
    exact h.recorded id t (hl ▸ ht)
  · exact (congrArg Clock.reading hc).trans h.reading
  · exact (congrArg Clock.taken hc).trans h.taken

/-- Markers, queues, counters and events are of no interest. -/
theorem alike (h : Refines ts clock max w r) (ha : w.services.Alike s') (hs : s'.Sane max) :
    Refines ts clock max { w with services := s' } r where
  orderly := ⟨hs, fun i => (h.orderly.seated i).of_txns ha.txns.symm, h.orderly.apart⟩
  tracks := h.tracks
  sorted := h.sorted
  since := h.since
  serials := h.serials
  trace := by
    refine h.trace.of_map_eq ha.versions (fun v v' hv hu => ?_) fun v v' x hv hx => ?_
    · obtain ⟨writer, hw, hr⟩ := hu
      exact ⟨writer, (congrArg RowVersion.writer hv).symm.trans hw, hr.of_txns ha.txns.symm⟩
    · obtain ⟨writer, hw, hst⟩ := hx.stands
      refine ⟨(congrArg RowVersion.key hv).symm.trans hx.key,
        (congrArg RowVersion.value hv).symm.trans hx.value, writer,
        (congrArg RowVersion.writer hv).symm.trans hw, ?_⟩
      unfold Stands at hst ⊢
      split at hst
      · exact hst.of_txns ha.txns.symm
      · obtain ⟨k, hk, hp⟩ := hst
        exact ⟨k, hk.of_txns ha.txns.symm, hp⟩
  recorded id t ht := h.recorded id t ((Ledger.find?_congr ha.txns id).trans ht)
  reading := (congrArg Clock.reading ha.clock).symm.trans h.reading
  taken := (congrArg Clock.taken ha.clock).symm.trans h.taken
  locks := (congrArg RowLocks.held ha.locks).symm.trans h.locks
  poisoned := ha.poisoned.symm.trans h.poisoned

end Refines

end UndoLog

end NestedTxn
