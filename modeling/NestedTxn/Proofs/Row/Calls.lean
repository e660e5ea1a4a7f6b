import NestedTxn.Proofs.Ledger.Growth

/-!
# Calls of the row store

While the row store is switched on, each of its calls is one equation: `exec_add`, `exec_read`,
`exec_scan`, `exec_take`, `exec_release`, `exec_mark`. `Services.exec_onRows` is the call of the
services.
-/

namespace NestedTxn

namespace RowStore

variable {r : RowStore}

theorem exec_demandRows (h : r.switch.on = true) :
    demandRows.exec r = if r.poisoned then (.error .poisoned, r) else (.ok (), r) := by
  cases hp : r.poisoned <;> simp [demandRows, demand, Act.exec_bind, h, hp]

theorem exec_add (h : r.switch.on = true) (v : RowVersion) :
    (add v).exec r = if r.poisoned then (.error .poisoned, r) else (.ok (), r.push v) := by
  cases hp : r.poisoned <;> simp [add, Act.exec_bind, exec_demandRows h, hp]

theorem exec_read (h : r.switch.on = true) (key : Key) :
    (read key).exec r =
      if r.poisoned then (.error .poisoned, r) else (.ok (r.versionsOf key), r) := by
  cases hp : r.poisoned <;>
    simp [read, Act.exec_bind, Act.exec_map, Except.map, exec_demandRows h, hp]

theorem exec_scan (h : r.switch.on = true) (start : Key) (stop : Option Key) :
    (scan start stop).exec r =
      if r.poisoned then (.error .poisoned, r)
      else if r.versions ≠ [] ∧ stop.any (· < start) then
        (.error .invertedRange, { r with poisoned := true })
      else (.ok (r.inRange start stop), r) := by
  rw [scan, Act.exec_bind, exec_demandRows h]
  cases hp : r.poisoned with
  | true => rfl
  | false =>
    simp only [Bool.false_eq_true, if_false, Act.exec_bind, Act.exec_get]
    split <;> simp [Act.exec_bind]

theorem exec_take (h : r.switch.on = true) (key : Key) (owner : TxnId) :
    (take key owner).exec r =
      (.ok (r.locks.take key owner).1, { r with locks := (r.locks.take key owner).2 }) := by
  simp [take, demand, Act.exec_bind, Act.exec_map, Except.map, h]

theorem exec_release (h : r.switch.on = true) (key : Key) (owner : TxnId) :
    (release key owner).exec r = (.ok (), { r with locks := r.locks.release key owner }) := by
  simp [release, demand, Act.exec_bind, h]

theorem exec_mark (h : r.switch.on = true) (key : Key) (writer : TxnId) (res : Resolution) :
    (mark key writer res).exec r =
      if r.poisoned then (.error .poisoned, r) else (.ok (), r.resolve key writer res) := by
  cases hp : r.poisoned <;> simp [mark, Act.exec_bind, exec_demandRows h, hp]

end RowStore

namespace Services

variable {α : Type}

/-- The row store at its next call. -/
def nextRows (s : Services) : RowStore := { s.rows with switch := s.rows.switch.advance }

/-- The services after a call of the row store that left it as `r`. -/
def withRows (s : Services) (r : RowStore) : Services := { s with rows := r }

@[simp] theorem nextRows_versions (s : Services) : s.nextRows.versions = s.rows.versions := rfl

@[simp] theorem nextRows_poisoned (s : Services) : s.nextRows.poisoned = s.rows.poisoned := rfl

@[simp] theorem nextRows_locks (s : Services) : s.nextRows.locks = s.rows.locks := rfl

@[simp] theorem nextRows_versionsOf (s : Services) (key : Key) :
    s.nextRows.versionsOf key = s.rows.versionsOf key := rfl

@[simp] theorem nextRows_inRange (s : Services) (start : Key) (stop : Option Key) :
    s.nextRows.inRange start stop = s.rows.inRange start stop := rfl

@[simp] theorem withRows_ledger (s : Services) (r : RowStore) : (s.withRows r).ledger = s.ledger :=
  rfl

@[simp] theorem withRows_rows (s : Services) (r : RowStore) : (s.withRows r).rows = r := rfl

theorem exec_onRows (call : Act RowStore RowFault α) (s : Services) :
    (onRows call).exec s = ((call.exec s.nextRows).1, s.withRows (call.exec s.nextRows).2) := by
  rw [onRows, Act.exec_zoom]
  rcases h : call.exec { s.rows with switch := s.rows.switch.advance } with ⟨r, t⟩
  cases r <;> simp [nextRows, withRows, h]

end Services

end NestedTxn
