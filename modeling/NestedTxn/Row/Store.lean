import NestedTxn.Act
import NestedTxn.Ascending
import NestedTxn.Error
import NestedTxn.Row.Locks
import NestedTxn.Switch

/-!
# Multi-version row store

* `RowStore`: every version of every row, newest first, with the row locks and the switch of the
  store. The versions of one key are the sublist with that key.
* `RowStore.versionsOf`, `RowStore.keys`, `RowStore.inRange`: its views. `RowStore.push`, `resolve`:
  the changes, each with a lemma that says what is seen of a key after it.
* `RowStore.add`, `read`, `scan`, `take`, `release`, `mark`: the calls. A scan of a range that
  starts after its end crashes if there are rows, and poisons them: every later call on rows
  fails. The locks are not affected.
-/

namespace NestedTxn

/-- The versions of all rows, with their locks. -/
structure RowStore where
  /-- Every version, newest first. -/
  versions : List RowVersion := []
  /-- Whether a call crashed while it held the rows. -/
  poisoned : Bool := false
  /-- The row locks. -/
  locks : RowLocks := {}
  /-- Whether the store answers. -/
  switch : Switch := {}

namespace RowStore

/-- The versions of `key`, newest first. -/
def versionsOf (s : RowStore) (key : Key) : List RowVersion :=
  s.versions.filter (·.key = key)

/-- The keys of the rows, ascending. -/
def keys (s : RowStore) : List Key :=
  Ascending.ofList (s.versions.map (·.key))

/-- Whether `key` lies in the range from `start` up to but without `stop`. -/
def within (start : Key) (stop : Option Key) (key : Key) : Bool :=
  start ≤ key && stop.all (key < ·)

/-- The versions of the keys of a range, keys ascending, newest first for each. -/
def inRange (s : RowStore) (start : Key) (stop : Option Key) : List RowVersion :=
  (s.keys.filter (within start stop)).flatMap s.versionsOf

/-- Add a version. -/
def push (s : RowStore) (v : RowVersion) : RowStore :=
  { s with versions := v :: s.versions }

/-- Attach a resolution to the versions of `key` that `writer` wrote. -/
def resolve (s : RowStore) (key : Key) (writer : TxnId) (r : Resolution) : RowStore :=
  { s with
    versions := s.versions.map fun v =>
      if v.key = key ∧ v.writer = some writer then { v with resolution := some r } else v }

theorem versionsOf_push (s : RowStore) (v : RowVersion) (key : Key) :
    (s.push v).versionsOf key =
      if v.key = key then v :: s.versionsOf key else s.versionsOf key := by
  by_cases h : v.key = key <;> simp [versionsOf, push, h]

theorem versionsOf_resolve (s : RowStore) (key other : Key) (writer : TxnId) (r : Resolution) :
    (s.resolve key writer r).versionsOf other =
      if key = other then
        (s.versionsOf other).map fun v =>
          if v.writer = some writer then { v with resolution := some r } else v
      else s.versionsOf other := by
  simp only [versionsOf, resolve]
  induction s.versions with
  | nil => simp
  | cons v vs ih =>
    by_cases hk : v.key = key <;> by_cases hw : v.writer = some writer <;>
      by_cases ho : v.key = other <;> grind

theorem mem_keys {s : RowStore} {key : Key} : key ∈ s.keys ↔ ∃ v ∈ s.versions, v.key = key := by
  simp [keys]

theorem keys_ascending (s : RowStore) : s.keys.Pairwise (· < ·) :=
  Ascending.pairwise_ofList _

/-- Fail while the store is switched off. -/
def demand : Act RowStore RowFault Unit := do
  if !(← get).switch.on then throw .switchedOff

/-- Fail while the store is switched off or its rows are poisoned. -/
def demandRows : Act RowStore RowFault Unit := do
  demand
  if (← get).poisoned then throw .poisoned

/-- Append a version. -/
def add (v : RowVersion) : Act RowStore RowFault Unit := do
  demandRows
  modify (·.push v)

/-- The versions of `key`, newest first. -/
def read (key : Key) : Act RowStore RowFault (List RowVersion) := do
  demandRows
  return (← get).versionsOf key

/-- The versions of the keys of a range. -/
def scan (start : Key) (stop : Option Key) : Act RowStore RowFault (List RowVersion) := do
  demandRows
  let s ← get
  if s.versions ≠ [] ∧ stop.any (· < start) then
    modify fun s => { s with poisoned := true }
    throw .invertedRange
  return s.inRange start stop

/-- Take the lock on `key` for `owner` without waiting; `false` if another owner holds it. -/
def take (key : Key) (owner : TxnId) : Act RowStore RowFault Bool := do
  demand
  let r := (← get).locks.take key owner
  modify fun s => { s with locks := r.2 }
  return r.1

/-- Give back the lock on `key` if `owner` holds it. -/
def release (key : Key) (owner : TxnId) : Act RowStore RowFault Unit := do
  demand
  modify fun s => { s with locks := s.locks.release key owner }

/-- Attach a resolution to every version of `key` that `writer` wrote. -/
def mark (key : Key) (writer : TxnId) (r : Resolution) : Act RowStore RowFault Unit := do
  demandRows
  modify (·.resolve key writer r)

end RowStore

end NestedTxn
