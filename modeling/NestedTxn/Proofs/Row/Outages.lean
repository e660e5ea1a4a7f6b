import NestedTxn.Proofs.Act
import NestedTxn.Proofs.Row.Calls

/-!
# Calls of a row store that may not answer

* `Switch.answers s n`: whether a store with the switch `s` answers its call number `n` from now.
* `Switch.lapsing n`: a switch that is off at one call only.
* `RowStore.exec_take_off`, `exec_add_off`, `exec_release_off`: a store that is switched off
  refuses, and nothing changes.
* `RowStore.Needs`: the calls that need the rows. They are refused as well if the rows are poisoned
  (`Needs.exec_poisoned`).
* `RowLocks.take_fst`: a lock is granted exactly if it is free, or held by the same owner.
-/

namespace NestedTxn

/-- Whether the store answers its call number `n` from now, counted from zero. -/
def Switch.answers (s : Switch) (n : Nat) : Bool := s.plan (s.calls + n)

@[simp] theorem Switch.answers_advance (s : Switch) (n : Nat) :
    s.advance.answers n = s.answers (n + 1) := by
  simp [answers, advance, Nat.add_right_comm, Nat.add_assoc]

/-- A switch that is off at its call number `n`, and on before and after it. -/
def Switch.lapsing (n : Nat) : Switch where
  plan i := i ≠ n

theorem RowLocks.take_fst {l : RowLocks} {key : Key} {owner : TxnId} :
    (l.take key owner).1 = true ↔ l.owner? key = none ∨ l.owner? key = some owner := by
  cases h : l.owner? key with
  | none => simp [take_of_free h]
  | some holder => simp [take_of_held h]

namespace RowStore

variable {r : RowStore}

/-- The calls that need the rows. -/
inductive Needs : {α : Type} → Act RowStore RowFault α → Prop
  | add (v : RowVersion) : Needs (add v)
  | read (key : Key) : Needs (read key)
  | scan (start : Key) (stop : Option Key) : Needs (scan start stop)
  | mark (key : Key) (writer : TxnId) (res : Resolution) : Needs (mark key writer res)

section

variable {α : Type} {call : Act RowStore RowFault α} (h : Needs call)
include h

theorem Needs.exec_error {fault : RowFault} (hd : demandRows.exec r = (.error fault, r)) :
    call.exec r = (.error fault, r) := by
  cases h <;> exact Act.exec_bind_error hd

theorem Needs.exec_off (hoff : r.switch.on = false) : call.exec r = (.error .switchedOff, r) :=
  h.exec_error (by simp [demandRows, demand, Act.exec_bind, hoff])

/-- A call that needs the rows fails if they are poisoned, and leaves them so. -/
theorem Needs.exec_poisoned (hp : r.poisoned = true) :
    call.exec r = (.error (if r.switch.on then .poisoned else .switchedOff), r) := by
  cases hon : r.switch.on with
  | false => exact h.exec_off hon
  | true => exact h.exec_error (by simp [exec_demandRows hon, hp])

end

theorem exec_take_off (h : r.switch.on = false) (key : Key) (owner : TxnId) :
    (take key owner).exec r = (.error .switchedOff, r) := by
  simp [take, demand, Act.exec_bind, h]

theorem exec_add_off (h : r.switch.on = false) (v : RowVersion) :
    (add v).exec r = (.error .switchedOff, r) := (Needs.add v).exec_off h

theorem exec_release_off (h : r.switch.on = false) (key : Key) (owner : TxnId) :
    (release key owner).exec r = (.error .switchedOff, r) := by
  simp [release, demand, Act.exec_bind, h]

/-- Whether or not it is answered, a read changes nothing. -/
theorem exec_read_snd (r : RowStore) (key : Key) : ((read key).exec r).2 = r := by
  cases hon : r.switch.on with
  | false => rw [(Needs.read key).exec_off hon]
  | true =>
    rw [exec_read hon]
    split <;> rfl

theorem poisoned_mark (r : RowStore) (key : Key) (writer : TxnId) (res : Resolution) :
    ((mark key writer res).exec r).2.poisoned = r.poisoned := by
  cases hon : r.switch.on with
  | false => rw [(Needs.mark key writer res).exec_off hon]
  | true =>
    rw [exec_mark hon]
    split <;> rfl

end RowStore

end NestedTxn
