import NestedTxn.Act
import NestedTxn.Error
import NestedTxn.Switch

/-!
# Record of transactions

* `Ledger`: the recorded transactions, newest first, each id once, and the switch of the record.
* `Ledger.find?`: the record of an id. `Ledger.insert`, `replace`, `erase`: the changes, each with
  a lemma that says what is found after it.
* `Ledger.fetch`, `create`, `finish`, `grant`: the calls. Every state change is atomic per id:
  exactly one terminal outcome can win.
* `Ledger.put`, `Ledger.size`: calls that only restores and reports use.
-/

namespace NestedTxn

/-- The recorded transactions. -/
structure Ledger where
  /-- The records, newest first. -/
  txns : List Txn := []
  /-- Whether the ledger answers. -/
  switch : Switch := {}

namespace Ledger

/-- The record of `id`. -/
def find? (l : Ledger) (id : TxnId) : Option Txn :=
  l.txns.find? (·.id = id)

/-- Add the record of `t`. -/
def insert (l : Ledger) (t : Txn) : Ledger :=
  { l with txns := t :: l.txns }

/-- Put `t` in the place of the record with its id. -/
def replace (l : Ledger) (t : Txn) : Ledger :=
  { l with txns := l.txns.map fun u => if u.id = t.id then t else u }

/-- Remove the record of `id`. -/
def erase (l : Ledger) (id : TxnId) : Ledger :=
  { l with txns := l.txns.filter (·.id ≠ id) }

theorem find?_insert (l : Ledger) (t : Txn) (id : TxnId) :
    (l.insert t).find? id = if t.id = id then some t else l.find? id := by
  by_cases h : t.id = id <;> simp [find?, insert, h]

theorem find?_replace (l : Ledger) (t : Txn) (id : TxnId) :
    (l.replace t).find? id = if t.id = id then (l.find? id).map fun _ => t else l.find? id := by
  simp only [find?, replace]
  induction l.txns with
  | nil => simp
  | cons u us ih =>
    by_cases hu : u.id = id
    · by_cases ht : t.id = id
      · simp [hu, ht]
      · simp [hu, ht, Ne.symm ht]
    · by_cases hut : u.id = t.id
      · have ht : t.id ≠ id := fun h => hu (hut.trans h)
        simpa [hu, hut, ht] using ih
      · simpa [hu, hut] using ih

theorem find?_erase (l : Ledger) (gone id : TxnId) :
    (l.erase gone).find? id = if gone = id then none else l.find? id := by
  simp only [find?, erase]
  induction l.txns with
  | nil => simp
  | cons u us ih => by_cases hu : u.id = gone <;> by_cases hi : u.id = id <;> grind

/-- The record found for an id has that id. -/
theorem id_of_find? {l : Ledger} {id : TxnId} {t : Txn} (h : l.find? id = some t) : t.id = id := by
  simpa using List.find?_some h

/-- Fail while the ledger is switched off. -/
def demand : Act Ledger TxnError Unit := do
  if !(← get).switch.on then throw (.unavailable .ledger)

/-- The record of `id`, if there is one. -/
def fetch (id : TxnId) : Act Ledger TxnError (Option Txn) := do
  demand
  return (← get).find? id

/-- Record a new transaction. -/
def create (t : Txn) : Act Ledger TxnError Unit := do
  demand
  if ((← get).find? t.id).isSome then throw (.alreadyExists t.id)
  modify (·.insert t)

/-- Change the record of an active transaction, and give the new record. -/
def update (id : TxnId) (change : Txn → Txn) : Act Ledger TxnError Txn := do
  demand
  match (← get).find? id with
  | none => throw (.notFound id)
  | some t =>
    if t.state.isTerminal then throw (.alreadyTerminal id t.state)
    modify (·.replace (change t))
    return change t

/-- Move an active transaction to a terminal state. -/
def finish (id : TxnId) (outcome : Outcome) : Act Ledger TxnError Txn :=
  update id (·.finish outcome)

/-- Add a table to the destination of an active transaction. -/
def grant (id : TxnId) (table : Table) : Act Ledger TxnError Txn :=
  update id (·.grant table)

/-- Record `t` in the place of any record with its id. -/
def put (t : Txn) : Act Ledger TxnError Unit := do
  demand
  modify fun l => (l.erase t.id).insert t

/-- The number of records. -/
def size : Act Ledger TxnError Nat := do
  demand
  return (← get).txns.length

end Ledger

end NestedTxn
