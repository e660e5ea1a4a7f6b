import NestedTxn.Proofs.Session.Aloof
import NestedTxn.Proofs.Session.Unlocked

/-!
# Scans of ranges that start after their end

A scan of such a range crashes if there are rows, and takes them with it: they are poisoned, and no
later call can read or write them.

* `RowStore.exec_scan_sound`: a scan of rows that are not poisoned. `RowStore.scan_cases`: the same
  whether or not they are.
* `SnapshotFilter.CallsRows call a`: all that `a` has to do with the rows is to make the call once.
* `Session.Crashes`: when a scan of a session crashes. `Session.scan_crashes`, `Session.rows_scan`:
  it crashes exactly then, and changes nothing else. `Session.Call.run_poisoned`: no other call
  poisons the rows. `Session.Call.run_of_poisoned`: what fails if they are poisoned.
* `Database.State.Scannable`: what scans do after a run, and what the run did to the rows. In every
  run (`Database.State.unreadable_iff`) the rows can no longer be read exactly if a scan crashed in
  it, and then they never can again.
-/

namespace NestedTxn

/-! ## The row store -/

namespace RowStore

open SnapshotFilter (inverted)

variable {r : RowStore}

/-- A range that starts after its end has no rows. -/
theorem inRange_of_inverted {start : Key} {stop : Option Key}
    (h : stop.any (· < start) = true) : r.inRange start stop = [] := by
  have hnone : r.keys.filter (within start stop) = [] := by
    refine List.filter_eq_nil_iff.2 fun key _ hkey => ?_
    obtain ⟨hstart, hstop⟩ := Bool.and_eq_true_iff.1 hkey
    cases stop with
    | none => cases h
    | some stop =>
      have hlt : start < stop :=
        List.lt_of_le_of_lt (of_decide_eq_true hstart) (of_decide_eq_true hstop)
      exact List.lt_irrefl _ (List.lt_trans hlt (of_decide_eq_true h))
  rw [inRange, hnone, List.flatMap_nil]

/-- A scan of rows that are not poisoned: it crashes, or answers and leaves everything alone. -/
theorem exec_scan_sound (hp : r.poisoned = false) (start : Key) (stop : Option Key) :
    (scan start stop).exec r =
      if r.switch.on = false then (.error .switchedOff, r)
      else if inverted r start stop then (.error .invertedRange, { r with poisoned := true })
      else (.ok (r.inRange start stop), r) := by
  cases hon : r.switch.on with
  | false => exact (Needs.scan start stop).exec_off hon
  | true =>
    rw [exec_scan hon, hp]
    rfl

/-- Whether or not the rows are poisoned, a scan crashes or leaves everything alone. -/
theorem scan_cases (r : RowStore) (start : Key) (stop : Option Key) :
    (r.switch.on = true ∧ r.poisoned = false ∧ inverted r start stop) ∧
        (scan start stop).exec r = (.error .invertedRange, { r with poisoned := true }) ∨
      ¬ (r.switch.on = true ∧ r.poisoned = false ∧ inverted r start stop) ∧
        ((scan start stop).exec r).1 ≠ .error .invertedRange ∧
        ((scan start stop).exec r).2 = r := by
  cases hp : r.poisoned with
  | true =>
    rw [(Needs.scan start stop).exec_poisoned hp]
    refine .inr ⟨fun h => Bool.noConfusion h.2.1, ?_, rfl⟩
    split <;> simp
  | false =>
    rw [exec_scan_sound hp]
    cases hon : r.switch.on with
    | false => exact .inr ⟨fun h => Bool.noConfusion h.1, by simp, rfl⟩
    | true =>
      by_cases hinv : inverted r start stop
      · exact .inl ⟨⟨rfl, rfl, hinv⟩, by simp [hinv]⟩
      · exact .inr ⟨fun h => hinv h.2.2, by simp [hinv], by simp [hinv]⟩

end RowStore

/-! ## Filters -/

namespace SnapshotFilter

open Services

variable {α β : Type}

/-- All that `a` has to do with the rows is to make the call once. -/
def CallsRows (call : Act RowStore RowFault β) (a : Act (SnapshotFilter × Services) TxnError α) :
    Prop :=
  ∀ p, (a.exec p).2.2.rows = (call.exec p.2.nextRows).2 ∧
    ∀ fault, (a.exec p).1 = .error (.ofRows fault) ↔ (call.exec p.2.nextRows).1 = .error fault

/-- What follows the call has nothing to do with the rows. -/
theorem callsRows_bind {call : Act RowStore RowFault β}
    {k : β → Act (SnapshotFilter × Services) TxnError α}
    (hk : ∀ x, Act.Aloof (fun p => p.2.rows) (k x)) :
    CallsRows call (Act.onSnd (Act.wrap .ofRows (onRows call)) >>= k) := by
  intro p
  rw [Act.exec_bind, Act.exec_onSnd, Act.exec_wrap, exec_onRows]
  rcases hx : call.exec p.2.nextRows with ⟨e | x, r⟩
  · refine ⟨rfl, fun fault => ⟨fun h => ?_, fun h => ?_⟩⟩ <;> cases h <;> rfl
  · obtain ⟨hrows, hfail⟩ := hk x (p.1, p.2.withRows r)
    exact ⟨hrows, fun fault => ⟨fun h => absurd rfl (hfail _ h fault), fun h => by cases h⟩⟩

theorem read_callsRows (key : Key) : CallsRows (RowStore.read key) (read key) :=
  callsRows_bind fun _ => .bind (classifying_aloof.firstVisible _) fun _ => .pure _

theorem scan_callsRows (start : Key) (stop : Option Key) :
    CallsRows (RowStore.scan start stop) (scan start stop) :=
  callsRows_bind fun _ => classifying_aloof.visibleRows none _

/-- A scan through a filter crashes exactly if the scan of the rows does. -/
theorem scan_crashes (f : SnapshotFilter) (s : Services) (start : Key) (stop : Option Key) :
    ((scan start stop).exec (f, s)).1 = .error (.ofRows .invertedRange) ↔
      s.rows.switch.answers 0 = true ∧ s.rows.poisoned = false ∧ inverted s.rows start stop := by
  rw [(scan_callsRows start stop (f, s)).2]
  rcases RowStore.scan_cases s.nextRows start stop with ⟨h, hx⟩ | ⟨h, hx, -⟩
  · rw [hx]
    exact ⟨fun _ => h, fun _ => rfl⟩
  · exact ⟨fun hc => absurd hc hx, fun hc => absurd hc h⟩

end SnapshotFilter

/-! ## Sessions -/

namespace Session

open Services SnapshotFilter

variable {α β : Type} {db : Database} {p : Connection × Services} {start : Key} {stop : Option Key}

/-- The session gets its reader and a filter for it. -/
def HasFilter (db : Database) (p : Connection × Services) : Prop :=
  ∃ reader q f s, (Connection.activeTxn db.config).exec p = (.ok reader, q) ∧
    (load reader db.sink db.config.maxAncestorDepth.toNat).exec q.2 = (.ok f, s)

/-- A scan of the session crashes. -/
structure Crashes (db : Database) (p : Connection × Services) (start : Key) (stop : Option Key) :
    Prop where
  filter : HasFilter db p
  answers : p.2.rows.switch.answers 0 = true
  sound : p.2.rows.poisoned = false
  /-- There are rows, and the range starts after its end. -/
  inverted : inverted p.2.rows start stop

/-- A read calls the row store, or fails before that. -/
theorem withFilter_cases {call : Act RowStore RowFault β}
    {a : Act (SnapshotFilter × Services) TxnError α} (ha : CallsRows call a) (db : Database)
    (p : Connection × Services) :
    (HasFilter db p ∧ ((withFilter db a).exec p).2.2.rows = (call.exec p.2.nextRows).2 ∧
        ∀ fault, ((withFilter db a).exec p).1 = .error (.txn (.ofRows fault)) ↔
          (call.exec p.2.nextRows).1 = .error fault) ∨
      ¬ HasFilter db p ∧ ((withFilter db a).exec p).2.2.rows = p.2.rows ∧
        ∃ e, e.BesideRows ∧ ((withFilter db a).exec p).1 = .error (.txn e) := by
  have hactive := Connection.activeTxn_aloof db.config p
  rcases hx : (Connection.activeTxn db.config).exec p with ⟨e | reader, q⟩ <;> rw [hx] at hactive
  · refine .inr ⟨?_, ?_⟩
    · rintro ⟨reader, q', f, s, hx', -⟩
      rw [hx] at hx'
      cases hx'
    · rw [exec_withFilter_error db hx]
      exact ⟨hactive.1, e, hactive.2 e rfl, rfl⟩
  · have hload := load_aloof reader db.sink db.config.maxAncestorDepth.toNat q.2
    rcases hl : (load reader db.sink db.config.maxAncestorDepth.toNat).exec q.2 with ⟨e | f, s⟩ <;>
      rw [hl] at hload
    · refine .inr ⟨?_, ?_⟩
      · rintro ⟨reader', q', f, s', hx', hl'⟩
        rw [hx] at hx'
        cases hx'
        rw [hl] at hl'
        cases hl'
      · rw [withFilter, onConnection, Act.exec_wrap, Act.exec_bind_ok hx, Act.exec_bind,
          Act.exec_onSnd, hl]
        exact ⟨hload.1.trans hactive.1, e, hload.2 e rfl, rfl⟩
    · -- the reader and the filter were found without the rows
      have hnext : s.nextRows = p.2.nextRows := by
        rw [nextRows, nextRows, hload.1.trans hactive.1]
      obtain ⟨hrows, hfail⟩ := ha (f, s)
      rw [hnext] at hrows hfail
      refine .inl ⟨⟨reader, q, f, s, hx, hl⟩, ?_, fun fault => ?_⟩
      · rw [exec_withFilter_ok db hx hl]
        exact hrows
      · rw [exec_withFilter_ok db hx hl, ← hfail fault]
        cases (a.exec (f, s)).1 <;> simp

/-- A scan crashes exactly if it gets to rows that it cannot be asked of. -/
theorem scan_crashes : ((scan db start stop).exec p).1 = .error (.txn (.ofRows .invertedRange)) ↔
    Crashes db p start stop := by
  rw [scan]
  rcases withFilter_cases (scan_callsRows start stop) db p with
    ⟨hf, -, hfail⟩ | ⟨hf, -, e, he, hx⟩
  · rw [hfail]
    rcases RowStore.scan_cases p.2.nextRows start stop with ⟨⟨hon, hp, hinv⟩, h⟩ | ⟨hno, h, -⟩
    · rw [h]
      exact ⟨fun _ => ⟨hf, hon, hp, hinv⟩, fun _ => rfl⟩
    · exact ⟨fun hc => absurd hc h, fun hc => absurd ⟨hc.answers, hc.sound, hc.inverted⟩ hno⟩
  · rw [hx]
    refine ⟨fun h => ?_, fun hc => absurd hc.filter hf⟩
    cases h
    exact absurd rfl (he .invertedRange)

/-- But for that a scan leaves the rows as they are. -/
theorem rows_scan (db : Database) (p : Connection × Services) (start : Key) (stop : Option Key) :
    ((scan db start stop).exec p).2.2.rows.versions = p.2.rows.versions ∧
      ((scan db start stop).exec p).2.2.rows.locks = p.2.rows.locks ∧
      (((scan db start stop).exec p).2.2.rows.poisoned = true ↔
        p.2.rows.poisoned = true ∨ Crashes db p start stop) := by
  rw [scan]
  rcases withFilter_cases (scan_callsRows start stop) db p with
    ⟨hf, hrows, -⟩ | ⟨hf, hrows, -⟩ <;> rw [hrows]
  · rcases RowStore.scan_cases p.2.nextRows start stop with ⟨⟨hon, hp, hinv⟩, h⟩ | ⟨hno, -, h⟩ <;>
      rw [h]
    · exact ⟨rfl, rfl, fun _ => .inr ⟨hf, hon, hp, hinv⟩, fun _ => rfl⟩
    · refine ⟨rfl, rfl, .inl, fun hc => hc.resolve_right fun hc => ?_⟩
      exact hno ⟨hc.answers, hc.sound, hc.inverted⟩
  · exact ⟨rfl, rfl, .inl, fun hc => hc.resolve_right fun hc => hf hc.filter⟩

/-- No call but a scan that crashes poisons the rows, and none cures them. -/
theorem Call.run_poisoned (db : Database) (p : Connection × Services) (c : Call) :
    ((c.run db).exec p).2.2.rows.poisoned = true ↔
      p.2.rows.poisoned = true ∨ ∃ start stop, c = .scan start stop ∧ Crashes db p start stop := by
  have hstays (hsame : ((c.run db).exec p).2.2.rows.poisoned = p.2.rows.poisoned)
      (hno : ∀ start stop, c ≠ .scan start stop) :
      ((c.run db).exec p).2.2.rows.poisoned = true ↔ p.2.rows.poisoned = true ∨
        ∃ start stop, c = .scan start stop ∧ Crashes db p start stop := by
    rw [hsame]
    refine ⟨.inl, fun h => h.resolve_right ?_⟩
    rintro ⟨start, stop, hc, -⟩
    exact hno start stop hc
  cases hw : c.write? with
  | some args =>
    obtain ⟨table, key, value⟩ := args
    refine hstays ?_ fun start stop hc => by rw [hc] at hw; cases hw
    rw [exec_run_of_write hw]
    rcases exec_write_eq db p table key value with ⟨_, q, -, hrows, h⟩ | ⟨leaf, q, -, -, h⟩ <;>
      rw [h]
    · rw [hrows]
    · exact RowStore.tried_poisoned ..
  | none =>
    cases hr : c.isRead with
    | false =>
      refine hstays (congrArg RowStore.poisoned (c.run_sameRows db hr hw p)) fun start stop hc => ?_
      rw [hc] at hr
      cases hr
    | true =>
      cases c with
      | scan start stop =>
        rw [run, Act.exec_map, (rows_scan db p start stop).2.2]
        constructor
        · exact Or.imp_right fun hc => ⟨start, stop, rfl, hc⟩
        · refine Or.imp_right ?_
          rintro ⟨_, _, h, hc⟩
          cases h
          exact hc
      | get key =>
        refine hstays ?_ fun _ _ hc => by cases hc
        rw [run, Act.exec_map, Session.get]
        rcases withFilter_cases (read_callsRows key) db p with ⟨-, hrows, -⟩ | ⟨-, hrows, -⟩
        · rw [hrows, RowStore.exec_read_snd, nextRows_poisoned]
        · rw [hrows]
      | _ => cases hr

/-- A read fails if the rows are poisoned. -/
theorem withFilter_poisoned {call : Act RowStore RowFault β}
    {a : Act (SnapshotFilter × Services) TxnError α} (hneeds : RowStore.Needs call)
    (ha : CallsRows call a) (hp : p.2.rows.poisoned = true) (db : Database) :
    ∃ e, ((withFilter db a).exec p).1 = .error e := by
  rcases withFilter_cases ha db p with ⟨-, -, hfail⟩ | ⟨-, -, e, -, hx⟩
  · exact ⟨_, (hfail _).2 (by rw [hneeds.exec_poisoned (r := p.2.nextRows) hp])⟩
  · exact ⟨_, hx⟩

/-- A call that reads or writes fails if the rows are poisoned. -/
theorem Call.run_of_poisoned {c : Call} (hc : c.isRead = true ∨ c.write?.isSome = true)
    (hp : p.2.rows.poisoned = true) (db : Database) : ∃ e, ((c.run db).exec p).1 = .error e := by
  cases hw : c.write? with
  | some args =>
    obtain ⟨table, key, value⟩ := args
    rw [exec_run_of_write hw]
    rcases exec_write_eq db p table key value with ⟨e, q, -, -, h⟩ | ⟨leaf, q, -, -, h⟩ <;> rw [h]
    · exact ⟨_, rfl⟩
    · dsimp only
      cases hx : p.2.rows.outcome key leaf.id with
      | error e => exact ⟨e, rfl⟩
      | ok x =>
        -- a write that succeeds has stored its version
        have haccepts := (RowStore.outcome_eq_ok.1 hx).2.1
        rw [RowStore.accepts, hp, Bool.not_true, Bool.and_false] at haccepts
        cases haccepts
  | none =>
    have hread := hc.resolve_right (by rw [hw]; exact Bool.false_ne_true)
    cases c with
    | get key =>
      obtain ⟨e, he⟩ := withFilter_poisoned (.read key) (read_callsRows key) hp db
      exact ⟨e, by rw [run, Act.exec_map, Session.get, he]; rfl⟩
    | scan start stop =>
      obtain ⟨e, he⟩ := withFilter_poisoned (.scan start stop) (scan_callsRows start stop) hp db
      exact ⟨e, by rw [run, Act.exec_map, Session.scan, he]; rfl⟩
    | _ => cases hread

end Session

/-! ## Runs -/

/-- Markers are written to rows as they are. -/
theorem Services.writing_poisoned :
    Writing fun s s' => s'.rows.poisoned = s.rows.poisoned where
  refl _ := rfl
  trans _ _ _ h h' := h'.trans h
  queues _ _ _ := rfl
  writeBack n := by
    have htrans (s s' s'' : Services) (h : s'.rows.poisoned = s.rows.poisoned)
        (h' : s''.rows.poisoned = s'.rows.poisoned) : s''.rows.poisoned = s.rows.poisoned :=
      h'.trans h
    have hmark : Act.Keeps (fun s s' : Services => s'.rows.poisoned = s.rows.poisoned)
        (mark onRows n) := by
      refine .bind htrans (fun s => ?_) fun _ _ => rfl
      rw [exec_onRows]
      exact RowStore.poisoned_mark s.nextRows _ _ _
    refine .bind htrans (fun s => hmark s) fun answer => ?_
    cases answer <;> exact fun _ => rfl

namespace Database.State

open Session

/-- What one event does to the rows. -/
theorem poisoned_step (db : Database) (w : State) (e : Event) :
    (w.run db [e]).2.services.rows.poisoned = true ↔
      w.services.rows.poisoned = true ∨
        ∃ i start stop, e = .call i (.scan start stop) ∧ Crashes db (w.view i) start stop := by
  have hstays (hsame : (w.run db [e]).2.services.rows.poisoned = w.services.rows.poisoned)
      (hno : ∀ i c, e ≠ .call i c) :
      (w.run db [e]).2.services.rows.poisoned = true ↔ w.services.rows.poisoned = true ∨
        ∃ i start stop, e = .call i (.scan start stop) ∧ Crashes db (w.view i) start stop := by
    rw [hsame]
    refine ⟨.inl, fun h => h.resolve_right ?_⟩
    rintro ⟨i, start, stop, he, -⟩
    exact hno i _ he
  cases e with
  | drain =>
    exact hstays (Services.writing_poisoned.runWriters w.services) fun _ _ h => by cases h
  | shutdown =>
    exact hstays (Services.writing_poisoned.shutdown db w.services) fun _ _ h => by cases h
  | call i c =>
    refine (c.run_poisoned db (w.view i)).trans (or_congr_right ?_)
    constructor
    · rintro ⟨start, stop, rfl, hc⟩
      exact ⟨i, start, stop, rfl, hc⟩
    · rintro ⟨_, start, stop, he, hc⟩
      cases he
      exact ⟨start, stop, rfl, hc⟩

theorem run_cons (db : Database) (w : State) (e : Event) (es : List Event) :
    (w.run db (e :: es)).2 = ((w.run db [e]).2.run db es).2 := by
  cases e <;> rfl

/-- The rows are poisoned after a run exactly if they were before it or a scan crashed in it. -/
theorem poisoned_run (db : Database) (w : State) (es : List Event) :
    (w.run db es).2.services.rows.poisoned = true ↔
      w.services.rows.poisoned = true ∨ ∃ before i start stop after,
        es = before ++ .call i (.scan start stop) :: after ∧
          Crashes db ((w.run db before).2.view i) start stop := by
  induction es generalizing w with
  | nil =>
    refine ⟨.inl, fun h => h.resolve_right ?_⟩
    rintro ⟨before, _, _, _, _, h, -⟩
    exact absurd h (by simp)
  | cons e es ih =>
    rw [run_cons, ih, poisoned_step, or_assoc]
    -- the scan that crashed is the first event, or one of the others
    refine or_congr_right ⟨?_, ?_⟩
    · rintro (⟨i, start, stop, rfl, hc⟩ | ⟨before, i, start, stop, after, rfl, hc⟩)
      · exact ⟨[], i, start, stop, es, rfl, hc⟩
      · exact ⟨e :: before, i, start, stop, after, rfl, by rwa [run_cons]⟩
    · rintro ⟨_ | ⟨e', before⟩, i, start, stop, after, h, hc⟩ <;> cases h
      · exact .inl ⟨i, start, stop, rfl, hc⟩
      · rw [run_cons] at hc
        exact .inr ⟨before, i, start, stop, after, rfl, hc⟩

/-- What comes of a scan of session `i`. -/
structure Scanned (db : Database) (w : State) (i : Nat) (start : Key) (stop : Option Key)
    (x : Except SessionError Answer × State) : Prop where
  /-- It crashes if it comes to rows, and the range starts after its end. -/
  crashes : x.1 = .error (.txn (.ofRows .invertedRange)) ↔ Crashes db (w.view i) start stop
  versions : x.2.services.rows.versions = w.services.rows.versions
  locks : x.2.services.rows.locks = w.services.rows.locks
  /-- The rows are poisoned by a crash only. -/
  poisoned : x.2.services.rows.poisoned = true ↔
    w.services.rows.poisoned = true ∨ Crashes db (w.view i) start stop

/-- What scans do to rows, and what became of the rows in the run `es` from `w₀`. -/
structure Scannable (db : Database) (w₀ : State) (es : List Event) : Prop where
  /-- A scan of rows that are not poisoned: it crashes only if the range starts after its end and
  there are rows, and else it leaves the rows as they are. -/
  rows : ∀ (r : RowStore) start stop, r.poisoned = false → (RowStore.scan start stop).exec r =
    if r.switch.on = false then (.error .switchedOff, r)
    else if SnapshotFilter.inverted r start stop then
      (.error .invertedRange, { r with poisoned := true })
    else (.ok (r.inRange start stop), r)
  /-- A range that starts after its end has no rows. -/
  empty : ∀ (r : RowStore) (start : Key) (stop : Option Key), stop.any (· < start) = true →
    r.inRange start stop = []
  /-- No call that needs the rows works on poisoned ones. -/
  dead : ∀ (r : RowStore) (α : Type) (call : Act RowStore RowFault α), r.poisoned = true →
    RowStore.Needs call → ∃ fault, call.exec r = (.error fault, r)
  /-- The same scan through a filter. -/
  filter : ∀ f s start stop,
    ((SnapshotFilter.scan start stop).exec (f, s)).1 = .error (.ofRows .invertedRange) ↔
      s.rows.switch.answers 0 = true ∧ s.rows.poisoned = false ∧
        SnapshotFilter.inverted s.rows start stop
  /-- The same scan of a session. -/
  session : ∀ i start stop, Scanned db (w₀.run db es).2 i start stop
    ((w₀.run db es).2.call db i (.scan start stop))
  /-- The rows are poisoned if a scan crashed in the run. -/
  lost : (w₀.run db es).2.services.rows.poisoned = true ↔ ∃ before i start stop after,
    es = before ++ .call i (.scan start stop) :: after ∧
      Crashes db ((w₀.run db before).2.view i) start stop
  /-- Then no session can read or write rows any more. -/
  forever : (w₀.run db es).2.services.rows.poisoned = true →
    ∀ es' i c, c.isRead = true ∨ c.write?.isSome = true →
      ∃ e, (((w₀.run db es).2.run db es').2.call db i c).1 = .error e

/-- What a scan of a session comes to, whatever the world is. -/
theorem scanned (db : Database) (w : State) (i : Nat) (start : Key) (stop : Option Key) :
    Scanned db w i start stop (w.call db i (.scan start stop)) := by
  obtain ⟨hversions, hlocks, hpoisoned⟩ := rows_scan db (w.view i) start stop
  dsimp only [call, Call.run, put]
  rw [Act.exec_map]
  refine ⟨?_, hversions, hlocks, hpoisoned⟩
  rw [← scan_crashes]
  rcases ((scan db start stop).exec (w.view i)).1 with e | rows <;> simp [Except.map]

/-- A scan of a range that starts after its end crashes exactly if it gets as far as the rows and
there are any. Any other scan leaves the rows as they were. Where a scan crashed, no session can
read or write rows any more. No other run poisons them. -/
theorem unreadable_iff (db : Database) (names : Nat → String) {s : Services}
    (hs : s.rows.poisoned = false) (es : List Event) : Scannable db (opened db names s) es where
  rows _ start stop hp := RowStore.exec_scan_sound hp start stop
  empty _ _ _ h := RowStore.inRange_of_inverted h
  dead _ _ _ hp hneeds := ⟨_, hneeds.exec_poisoned hp⟩
  filter := SnapshotFilter.scan_crashes
  session i start stop := scanned db _ i start stop
  lost := by
    have hsound : (opened db names s).services.rows.poisoned = false := hs
    rw [poisoned_run, hsound]
    exact or_iff_right Bool.false_ne_true
  forever hp es' i c hc :=
    c.run_of_poisoned hc ((poisoned_run db _ es').2 (.inl hp)) db

/-- Session 0 puts a value, and scans a range that starts after its end. -/
def crashing : List Event := [.call 0 (.put "t" [1] [2]), .call 0 (.scan [2] (some [1]))]

/-- Another session cannot read the value, also after the first one is gone. -/
theorem unreadable_iff_crashed :
    ∃ e, (((usualOpen.run usual crashing).2.run usual [.call 0 .close, .drain]).2.call usual 1
      (.get [1])).1 = .error e := by
  have hcrash : Crashes usual ((usualOpen.run usual [.call 0 (.put "t" [1] [2])]).2.view 0) [2]
      (some [1]) := ⟨⟨_, _, _, _, rfl, rfl⟩, rfl, rfl, by decide⟩
  have hscans := unreadable_iff usual (fun _ => "s") (s := ((start {}).exec {}).2) rfl crashing
  exact hscans.forever (hscans.lost.2 ⟨_, _, _, _, [], rfl, hcrash⟩) _ 1 (.get [1]) (.inl rfl)

/-- A put of one value, and the scan of a range that starts after its end, takes the value from
everybody. -/
theorem scan_poisons :
    (usualOpen.run usual [.call 0 (.put "t" [1] [2]), .call 0 .commit, .call 1 (.get [1])]).1 =
        [.ok .done, .ok (.timestamp (some 2)), .ok (.value (some [2]))] ∧
      (usualOpen.run usual [.call 0 (.put "t" [1] [2]), .call 0 .commit,
          .call 0 (.scan [2] (some [1])), .call 1 (.get [1])]).1 =
        [.ok .done, .ok (.timestamp (some 2)), .error (.txn (.ofRows .invertedRange)),
          .error (.txn (.ofRows .poisoned))] :=
  ⟨by decide +kernel, by decide +kernel⟩

end Database.State

end NestedTxn
