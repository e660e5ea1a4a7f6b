import NestedTxn.Text.Numeral

/-!
# Severity of events

* `Level`: the severities, from errors down to traces. A filter at one level lets through the
  events of that level and of the more severe ones (`Level.admits`).
-/

namespace NestedTxn

/-- Severity of an event. -/
inductive Level where
  | error
  | warn
  | info
  | debug
  | trace
deriving DecidableEq

namespace Level

/-- How verbose a filter at this level is. -/
def verbosity : Level → Nat
  | error => 1
  | warn => 2
  | info => 3
  | debug => 4
  | trace => 5

/-- Whether a filter at level `limit` lets an event of level `l` through. -/
def admits (limit l : Level) : Bool := l.verbosity ≤ limit.verbosity

/-- The name of a level, in lower case. -/
def name : Level → String
  | error => "error"
  | warn => "warn"
  | info => "info"
  | debug => "debug"
  | trace => "trace"

/-- The levels, most severe first. -/
def all : List Level := [error, warn, info, debug, trace]

/-- The verbosity that a numeral spells; a plus may stand before it. -/
def verbosityOf? (text : String) : Option Nat :=
  match text.toList with
  | '+' :: ds => Numeral.ofDigits? 10 ds
  | ds => Numeral.ofDigits? 10 ds

/-- The level that a text names, in any case, or gives as its verbosity. -/
def ofText? (text : String) : Option Level :=
  all.find? fun l => text.toLower = l.name || verbosityOf? text = some l.verbosity

end Level

end NestedTxn
