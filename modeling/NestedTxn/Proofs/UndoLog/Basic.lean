import Mathlib.Logic.Function.Iterate
import NestedTxn.Proofs.Session.Runs

/-!
# Undo logs

What sessions of a database are meant to do, said without transactions: every write is remembered
until it is undone, and a session reads the last one that it may see.

* `UndoLog`: the writes that remain, newest first, and for each session the marks of its stack.
* `UndoLog.undo`, `publish`: delete the uncommitted writes of a session from some write on, or give
  all of them a timestamp.
* `UndoLog.step`, `run`: what a call does, and what a list of events does. `UndoLog.read`: the value
  that a session reads.
* `UndoLog.popCommit`, `popUndo`: the same entry by entry; `release_eq`, `popUndo_iterate` say that
  it comes to the same.

Timestamps come from a given sequence, in the order in which they are taken. A session nests at most
`max` levels deep.
-/

namespace NestedTxn

namespace UndoLog

/-- A write that is remembered. -/
structure Write where
  /-- The session that made it. -/
  session : Nat
  key : Key
  /-- The value, `none` for a delete. -/
  value : Option Bytes
  /-- The number of writes made before it. -/
  serial : Nat
  /-- When it was published, `none` while it is uncommitted. -/
  stamp : Option Timestamp := none

/-- An entry of the stack of a session. -/
structure Mark where
  name : String
  /-- The number of writes made before the entry was pushed. -/
  since : Nat
  /-- When its transaction began. -/
  begun : Timestamp

/-- A session. -/
structure Client where
  name : String
  closed : Bool := false
  /-- Its stack, top first. -/
  marks : List Mark := []

/-- Whether the write is an uncommitted one of session `i`. -/
def Write.isPending (w : Write) (i : Nat) : Bool := w.session = i && w.stamp.isNone

/-- The nearest mark called `name`, with those below it. -/
def nearest? (name : String) : List Mark → Option (Mark × List Mark)
  | [] => none
  | m :: below => if m.name = name then some (m, below) else nearest? name below

end UndoLog

/-- The writes of the sessions of a database. -/
structure UndoLog where
  clients : Nat → UndoLog.Client
  /-- The writes that remain, newest first. -/
  writes : List UndoLog.Write := []
  /-- The number of writes made so far. -/
  made : Nat := 0
  /-- The number of timestamps taken so far. -/
  taken : Nat := 0

namespace UndoLog

/-- Nothing is written, and no session has begun. -/
def opened (names : Nat → String) : UndoLog where
  clients i := { name := names i }

/-- Delete the uncommitted writes of session `i` from serial number `since` on. -/
def undo (r : UndoLog) (i since : Nat) : UndoLog :=
  { r with writes := r.writes.filter fun w => !(w.isPending i && since ≤ w.serial) }

/-- Publish the uncommitted writes of session `i` at `t`. -/
def publish (r : UndoLog) (i : Nat) (t : Timestamp) : UndoLog :=
  { r with writes := r.writes.map fun w => if w.isPending i then { w with stamp := some t } else w }

/-- Replace the stack of session `i`. -/
def setMarks (r : UndoLog) (i : Nat) (marks : List Mark) : UndoLog :=
  { r with clients := Function.update r.clients i { r.clients i with marks } }

/-- Take `n` timestamps. -/
def take (r : UndoLog) (n : Nat) : UndoLog := { r with taken := r.taken + n }

/-- The stack of session `i`. -/
def marks (r : UndoLog) (i : Nat) : List Mark := (r.clients i).marks

/-! ## Calls -/

variable (ts : Nat → Timestamp) (max : Nat)

/-- Push an entry that begins now. -/
def push (r : UndoLog) (i : Nat) (name : String) : UndoLog :=
  (r.setMarks i (⟨name, r.made, ts r.taken⟩ :: r.marks i)).take 1

/-- Begin with an entry called like the session, if there is none and the session is open. -/
def begin (r : UndoLog) (i : Nat) : UndoLog :=
  match (r.clients i).closed, r.marks i with
  | false, [] => r.push ts i (r.clients i).name
  | _, _ => r

/-- Write at the end of the log. -/
def write (r : UndoLog) (i : Nat) (key : Key) (value : Option Bytes) : UndoLog :=
  let r := r.begin ts i
  if (r.clients i).closed then r
  else
    { r with
      writes := { session := i, key, value, serial := r.made } :: r.writes, made := r.made + 1 }

/-- Push an entry, unless it would nest too deep. -/
def savepoint (r : UndoLog) (i : Nat) (name : String) : UndoLog :=
  let r := r.begin ts i
  if (r.clients i).closed || max < (r.marks i).length then r else r.push ts i name

/-- Delete the uncommitted writes made since the nearest entry called `name` was pushed, or all of
them if that is the bottom entry. That entry is replaced with a fresh one. -/
def rollbackTo (r : UndoLog) (i : Nat) (name : String) : UndoLog :=
  match nearest? name (r.marks i) with
  | none => r
  | some (m, below) =>
    ((r.undo i (if below.isEmpty then 0 else m.since)).setMarks i below).savepoint ts max i name

/-- Remove the entries down to the nearest one called `name`, each of which takes a timestamp. If
that is the bottom entry, its timestamp is the one of all uncommitted writes. -/
def release (r : UndoLog) (i : Nat) (name : String) : UndoLog :=
  match nearest? name (r.marks i) with
  | none => r
  | some (_, below) =>
    let n := (r.marks i).length - below.length
    let released := (r.setMarks i below).take n
    if below.isEmpty then released.publish i (ts (r.taken + n - 1)) else released

/-- Publish all uncommitted writes, and end the transaction. -/
def commit (r : UndoLog) (i : Nat) : UndoLog :=
  if (r.marks i).isEmpty then r
  else ((r.setMarks i []).take 1).publish i (ts r.taken)

/-- Delete all uncommitted writes, and end the transaction. -/
def abort (r : UndoLog) (i : Nat) : UndoLog := (r.undo i 0).setMarks i []

/-- Abort for good. -/
def close (r : UndoLog) (i : Nat) : UndoLog :=
  let r := r.abort i
  { r with clients := Function.update r.clients i { r.clients i with closed := true } }

/-- What a call of session `i` does. -/
def step (r : UndoLog) (i : Nat) : Session.Call → UndoLog
  | .begin | .get _ | .scan _ _ => r.begin ts i
  | .put _ key value => r.write ts i key (some value)
  | .delete _ key => r.write ts i key none
  | .savepoint name => r.savepoint ts max i name
  | .release name => r.release ts i name
  | .rollbackTo name => r.rollbackTo ts max i name
  | .commit => r.commit ts i
  | .abort => r.abort i
  | .close => r.close i

/-- What a list of events does. The writers of resolutions do nothing. -/
def run (r : UndoLog) : List Database.Event → UndoLog
  | [] => r
  | .call i c :: es => (r.step ts max i c).run es
  | .drain :: es | .shutdown :: es => r.run es

variable {ts} {max}

/-- Whether session `i` sees a write: its own uncommitted ones, and those that were published when
its top entry began. -/
def shows (r : UndoLog) (i : Nat) (w : Write) : Bool :=
  match w.stamp with
  | none => w.session = i
  | some t => (r.marks i).head?.any (t ≤ ·.begun)

/-- The value of the last write of `key` that session `i` sees. -/
def read (r : UndoLog) (i : Nat) (key : Key) : Option Bytes :=
  (r.writes.find? fun w => w.key = key && r.shows i w).bind (·.value)

/-! ## Entry by entry -/

/-- Remove the top entry, which takes a timestamp. -/
def popCommit (ts : Nat → Timestamp) (i : Nat) (r : UndoLog) : UndoLog :=
  match r.marks i with
  | [] => r
  | [_] => r.commit ts i
  | _ :: below => (r.setMarks i below).take 1

/-- Remove the top entry with the uncommitted writes made since it was pushed. -/
def popUndo (i : Nat) (r : UndoLog) : UndoLog :=
  match r.marks i with
  | [] => r
  | m :: below => (r.undo i m.since).setMarks i below

section

variable (r : UndoLog) (i : Nat) (ms : List Mark)

@[simp] theorem marks_setMarks : (r.setMarks i ms).marks i = ms := by simp [marks, setMarks]

@[simp] theorem marks_take (n : Nat) : (r.take n).marks i = r.marks i := rfl

@[simp] theorem marks_publish (j : Nat) (t : Timestamp) : (r.publish j t).marks i = r.marks i := rfl

@[simp] theorem setMarks_marks : r.setMarks i (r.marks i) = r := by
  simp [setMarks, marks]

@[simp] theorem setMarks_setMarks (ms' : List Mark) :
    (r.setMarks i ms).setMarks i ms' = r.setMarks i ms' := by
  simp [setMarks]

theorem take_take (n n' : Nat) : (r.take n).take n' = r.take (n + n') := by
  simp [take, Nat.add_assoc]

/-- What is deleted from some write on is also deleted from an earlier one on. -/
theorem undo_undo {since since' : Nat} (h : since' ≤ since) :
    (r.undo i since).undo i since' = r.undo i since' := by
  simp only [undo, List.filter_filter]
  congr
  funext w
  cases w.isPending i <;> simp
  omega

/-- Deleting from a write on deletes all if there is nothing before it. -/
theorem undo_eq_undo_zero {since : Nat}
    (h : ∀ w ∈ r.writes, w.isPending i = true → since ≤ w.serial) :
    r.undo i since = r.undo i 0 := by
  simp only [undo]
  congr 1
  refine List.filter_congr fun w hw => ?_
  cases hp : w.isPending i
  · rfl
  · simp [h w hw hp]

end

variable {r : UndoLog} {i : Nat}

/-! ### Sessions that begin -/

theorem begin_of_closed (h : (r.clients i).closed = true) : r.begin ts i = r := by
  rw [begin, h]

theorem begin_of_marks (h : r.marks i ≠ []) : r.begin ts i = r := by
  rw [begin]
  split
  · next hms => exact absurd hms h
  · rfl

@[simp] theorem closed_begin : ((r.begin ts i).clients i).closed = (r.clients i).closed := by
  rw [begin]
  split
  · simp [push, take, setMarks]
  · rfl

theorem taken_begin : r.taken ≤ (r.begin ts i).taken := by
  rw [begin]
  split
  · exact Nat.le_succ _
  · exact Nat.le_refl _

theorem savepoint_of_closed (h : (r.clients i).closed = true) (name : String) :
    r.savepoint ts max i name = r := by
  simp [savepoint, begin_of_closed h, h]

theorem taken_savepoint (name : String) :
    (r.begin ts i).taken ≤ (r.savepoint ts max i name).taken := by
  rw [savepoint]
  split
  · exact Nat.le_refl _
  · exact Nat.le_succ _

theorem write_of_closed (h : (r.clients i).closed = true) (key : Key) (value : Option Bytes) :
    r.write ts i key value = r := by
  simp [write, begin_of_closed h, h]

theorem write_of_open (h : (r.clients i).closed = false) (key : Key) (value : Option Bytes) :
    r.write ts i key value =
      { r.begin ts i with
        writes := { session := i, key, value, serial := (r.begin ts i).made } ::
          (r.begin ts i).writes
        made := (r.begin ts i).made + 1 } := by
  simp [write, h]

/-! ### Entries that are removed -/

/-- The nearest mark splits the stack. -/
theorem eq_append_of_nearest? {name : String} {ms below : List Mark} {m : Mark}
    (h : nearest? name ms = some (m, below)) : ∃ above, ms = above ++ m :: below := by
  induction ms with
  | nil => cases h
  | cons m' ms ih =>
    rw [nearest?] at h
    split at h
    · cases h
      exact ⟨[], rfl⟩
    · obtain ⟨above, rfl⟩ := ih h
      exact ⟨m' :: above, rfl⟩

theorem commit_of_marks (ts : Nat → Timestamp) (h : r.marks i ≠ []) :
    r.commit ts i = ((r.setMarks i []).take 1).publish i (ts r.taken) := by
  rw [commit, if_neg (by simpa using h)]

theorem marks_popCommit : (r.popCommit ts i).marks i = (r.marks i).tail := by
  rw [popCommit]
  split
  · next h => rw [h, List.tail_nil]
  · next h =>
    rw [commit_of_marks ts (by simp [h]), marks_publish, marks_take, marks_setMarks, h]
    rfl
  · next h =>
    rw [marks_take, marks_setMarks, h]
    rfl

/-- An entry that is removed takes a timestamp. -/
theorem taken_popCommit (h : r.marks i ≠ []) : (r.popCommit ts i).taken = r.taken + 1 := by
  rw [popCommit]
  split
  · next hn => exact absurd hn h
  · rw [commit_of_marks ts h]
    rfl
  · rfl

theorem marks_popUndo : (r.popUndo i).marks i = (r.marks i).tail := by
  rw [popUndo]
  split
  · next h => rw [h, List.tail_nil]
  · next h =>
    rw [marks_setMarks, h]
    rfl

theorem taken_popUndo : (r.popUndo i).taken = r.taken := by
  rw [popUndo]
  split <;> rfl

/-- Entries above another one are removed, and nothing is published. -/
theorem popCommit_iterate {n : Nat} (h : n < (r.marks i).length) :
    (popCommit ts i)^[n] r = (r.setMarks i ((r.marks i).drop n)).take n := by
  induction n with
  | zero => simp [take]
  | succ n ih =>
    rw [Function.iterate_succ_apply', ih (Nat.lt_of_succ_lt h), popCommit, marks_take,
      marks_setMarks, ← take_take]
    obtain ⟨m, m', below, hd⟩ : ∃ m m' below, (r.marks i).drop n = m :: m' :: below := by
      rcases hd : (r.marks i).drop n with _ | ⟨m, _ | ⟨m', below⟩⟩
      · have hlen := congrArg List.length hd
        simp at hlen
        omega
      · have hlen := congrArg List.length hd
        simp at hlen
        omega
      · exact ⟨m, m', below, rfl⟩
    have hd' : (r.marks i).drop (n + 1) = m' :: below := by
      rw [← List.drop_drop, hd]
      rfl
    rw [hd, hd']
    simp [setMarks, take]

/-- A release removes entry by entry. -/
theorem release_eq {name : String} {m : Mark} {below : List Mark}
    (h : nearest? name (r.marks i) = some (m, below)) :
    r.release ts i name = (popCommit ts i)^[(r.marks i).length - below.length] r := by
  obtain ⟨above, hm⟩ := eq_append_of_nearest? h
  have hn : (r.marks i).length - below.length = above.length + 1 := by
    rw [hm, List.length_append, List.length_cons]
    omega
  rw [release, h]
  dsimp only
  rw [hn]
  cases below with
  | nil =>
    -- the last entry publishes
    have hlt : above.length < (r.marks i).length := by simp [hm]
    rw [Function.iterate_succ_apply', popCommit_iterate hlt, popCommit, marks_take, marks_setMarks,
      hm, List.drop_left]
    simp [commit, publish, setMarks, take, marks, Nat.add_assoc]
  | cons m' below =>
    have hlt : above.length + 1 < (r.marks i).length := by simp [hm]
    rw [popCommit_iterate hlt, hm, ← List.drop_drop, List.drop_left]
    rfl

/-- Entries are undone down to an entry, which is undone too. -/
theorem popUndo_iterate {above below : List Mark} {m : Mark}
    (h : r.marks i = above ++ m :: below)
    (hs : (r.marks i).Pairwise fun m m' => m'.since ≤ m.since) :
    (popUndo i)^[above.length + 1] r = (r.undo i m.since).setMarks i below := by
  induction above generalizing r with
  | nil =>
    rw [List.length_nil, Function.iterate_succ_apply, popUndo, h]
    rfl
  | cons a above ih =>
    rw [h, List.cons_append, List.pairwise_cons] at hs
    have hle : m.since ≤ a.since := hs.1 m (by simp)
    rw [List.length_cons, Function.iterate_succ_apply, popUndo, h, List.cons_append]
    dsimp only
    rw [ih (by rw [marks_setMarks]) (by rw [marks_setMarks]; exact hs.2)]
    change (((r.undo i a.since).undo i m.since).setMarks i _).setMarks i below = _
    rw [setMarks_setMarks, undo_undo _ _ hle]

end UndoLog

end NestedTxn
