import NestedTxn.Clock
import NestedTxn.Counters
import NestedTxn.Ledger
import NestedTxn.Log.Event
import NestedTxn.Resolver.Queue
import NestedTxn.Resolver.Turns
import NestedTxn.Row.Store

/-!
# Services

* `Services`: the clock, the ledger, the row store and the queues of resolutions, with the counters
  and the events reported so far.
* `Services.tick`, `onLedger`, `onRows`: one call of a service. A call of a store first moves its
  switch to its planned position.
* `Services.besideLedger`, `besideRows`: the same without moving the switch.
* `Services.count`, `Services.report`: count something, report an event.
-/

namespace NestedTxn

/-- The services that transactions run on. -/
structure Services where
  /-- Source of ids and timestamps. -/
  clock : Clock := .standard
  /-- Record of transactions. -/
  ledger : Ledger := {}
  /-- Row versions and row locks. -/
  rows : RowStore := {}
  /-- The queues of resolutions, by number. -/
  queues : List Queue := []
  /-- The writers of the queues that have work to look for. -/
  turns : Turns := {}
  /-- What was counted. -/
  counters : Counters := {}
  /-- What was reported, newest first. -/
  log : List Event := []

namespace Services

variable {ε α : Type}

/-- The next timestamp. -/
def tick : Act Services TxnError Timestamp := do
  let r := (← get).clock.next
  modify fun s => { s with clock := r.2 }
  match r.1 with
  | some ts => return ts
  | none => throw (.unavailable .clock)

/-- One call of the ledger. -/
def onLedger (call : Act Ledger TxnError α) : Act Services TxnError α :=
  Act.zoom (fun s => { s.ledger with switch := s.ledger.switch.advance })
    (fun l s => { s with ledger := l }) id call

/-- One call of the row store. -/
def onRows (call : Act RowStore RowFault α) : Act Services RowFault α :=
  Act.zoom (fun s => { s.rows with switch := s.rows.switch.advance })
    (fun r s => { s with rows := r }) id call

/-- A look at the ledger that does not count as a call: its switch stays where it is. -/
def besideLedger (call : Act Ledger TxnError α) : Act Services TxnError α :=
  Act.zoom Services.ledger (fun l s => { s with ledger := l }) id call

/-- A look at the row store that does not count as a call: its switch stays where it is. -/
def besideRows (call : Act RowStore RowFault α) : Act Services RowFault α :=
  Act.zoom Services.rows (fun r s => { s with rows := r }) id call

/-- Count one more. -/
def count (c : Counter) : Act Services ε Unit :=
  modify fun s => { s with counters := s.counters.bump c }

/-- Report an event. -/
def report (e : Event) : Act Services ε Unit :=
  modify fun s => { s with log := e :: s.log }

/-- The events reported so far, oldest first. -/
def events (s : Services) : List Event := s.log.reverse

end Services

end NestedTxn
