import NestedTxn.Row.Basic

/-!
# Row locks

* `RowLocks`: the owner of each locked row.
* `RowLocks.take`: takes a lock without waiting, also if its owner holds it already.
* `RowLocks.release`: gives a lock back; a call by another than the owner changes nothing.
* `RowLocks.owner?_take`, `owner?_release`: the owner of a row after each of them.
-/

namespace NestedTxn

/-- The locked rows and their owners. -/
structure RowLocks where
  /-- Each locked row with its owner. -/
  held : List (Key × TxnId) := []
deriving DecidableEq

namespace RowLocks

/-- The owner of the lock on `key`. -/
def owner? (l : RowLocks) (key : Key) : Option TxnId :=
  l.held.lookup key

/-- Take the lock on `key` for `owner`. The answer is `false` if another owner holds it. -/
def take (l : RowLocks) (key : Key) (owner : TxnId) : Bool × RowLocks :=
  match l.owner? key with
  | some holder => (holder = owner, l)
  | none => (true, ⟨(key, owner) :: l.held⟩)

/-- Give back the lock on `key` if `owner` holds it. -/
def release (l : RowLocks) (key : Key) (owner : TxnId) : RowLocks :=
  if l.owner? key = some owner then ⟨l.held.filter (·.1 ≠ key)⟩ else l

theorem take_of_held {l : RowLocks} {key : Key} {holder : TxnId} (h : l.owner? key = some holder)
    (owner : TxnId) : l.take key owner = (decide (holder = owner), l) := by
  rw [take, h]

theorem take_of_free {l : RowLocks} {key : Key} (h : l.owner? key = none) (owner : TxnId) :
    l.take key owner = (true, ⟨(key, owner) :: l.held⟩) := by
  rw [take, h]

theorem owner?_take (l : RowLocks) (key other : Key) (owner : TxnId) :
    (l.take key owner).2.owner? other =
      if key = other then some ((l.owner? key).getD owner) else l.owner? other := by
  cases ho : l.owner? key with
  | none =>
    rw [take_of_free ho]
    by_cases h : key = other
    · simp [owner?, h]
    · simp [owner?, List.lookup_cons, h, beq_false_of_ne (Ne.symm h)]
  | some holder =>
    rw [take_of_held ho]
    by_cases h : key = other
    · simp [← h, ho]
    · simp [h]

theorem lookup_filter_ne (held : List (Key × TxnId)) (key other : Key) :
    (held.filter (·.1 ≠ key)).lookup other = if key = other then none else held.lookup other := by
  induction held with
  | nil => simp
  | cons e es ih =>
    obtain ⟨k, o⟩ := e
    by_cases hk : k = key
    · by_cases h : key = other
      · simpa [hk, h] using ih
      · rw [List.filter_cons_of_neg (by simpa using hk), ih, if_neg h, if_neg h]
        simp [List.lookup_cons, hk, beq_false_of_ne (Ne.symm h)]
    · rw [List.filter_cons_of_pos (by simpa using hk)]
      by_cases ho : other = k
      · simp [ho, Ne.symm hk]
      · rw [List.lookup_cons, List.lookup_cons, ih]
        simp [beq_false_of_ne ho]

theorem owner?_release (l : RowLocks) (key other : Key) (owner : TxnId) :
    (l.release key owner).owner? other =
      if key = other ∧ l.owner? key = some owner then none else l.owner? other := by
  by_cases ho : l.owner? key = some owner
  · rw [release, if_pos ho]
    simp only [ho, and_true]
    exact lookup_filter_ne ..
  · rw [release, if_neg ho]
    simp [ho]

end RowLocks

end NestedTxn
