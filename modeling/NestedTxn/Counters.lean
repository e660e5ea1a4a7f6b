/-!
# Counters

* `Counter`: the things that are counted. `Counters`: how often each happened.
* `Counters.bump`: counts one more.
* `Counters.exposition`: the counters as text, sorted by name, each with its help and its type.
-/

namespace NestedTxn

/-- Something that is counted. -/
inductive Counter where
  /-- Root and child transactions created. -/
  | begun
  /-- Transactions committed. -/
  | committed
  /-- Transactions rolled back. -/
  | rolledBack
  /-- Read-only transactions made writable. -/
  | elevations
  /-- Resolutions accepted by a queue. -/
  | enqueued
  /-- Resolutions dropped on a full or closed queue. -/
  | dropped
  /-- Resolutions written back onto row versions. -/
  | applied
  /-- Row versions skipped because their writer could not be resolved. -/
  | unresolvable
deriving DecidableEq

namespace Counter

/-- The name of a counter. -/
def name : Counter → String
  | begun => "si_txn_begun_total"
  | committed => "si_txn_committed_total"
  | rolledBack => "si_txn_rolled_back_total"
  | elevations => "si_txn_elevations_total"
  | enqueued => "si_resolutions_enqueued_total"
  | dropped => "si_resolutions_dropped_total"
  | applied => "si_resolutions_applied_total"
  | unresolvable => "si_unresolvable_writers_total"

/-- What a counter counts. -/
def help : Counter → String
  | begun => "Transactions created (root and child)"
  | committed => "Transactions committed"
  | rolledBack => "Transactions rolled back"
  | elevations => "Read-only transactions elevated to writable"
  | enqueued => "Read resolutions queued"
  | dropped => "Read resolutions dropped on a full or closed queue"
  | applied => "Read resolutions written back to storage"
  | unresolvable => "Row versions skipped for an unresolvable writer"

/-- The counters in the order of their names. -/
def all : List Counter :=
  [applied, dropped, enqueued, begun, committed, elevations, rolledBack, unresolvable]

theorem all_sorted : (all.map name).Pairwise (· < ·) := by decide

theorem mem_all (c : Counter) : c ∈ all := by cases c <;> decide

end Counter

/-- How often each counted thing happened. A count has no upper end: it is what a counter of 64 bits
shows as long as it has not wrapped. -/
structure Counters where
  begun : Nat := 0
  committed : Nat := 0
  rolledBack : Nat := 0
  elevations : Nat := 0
  enqueued : Nat := 0
  dropped : Nat := 0
  applied : Nat := 0
  unresolvable : Nat := 0
deriving DecidableEq

namespace Counters

/-- The value of a counter. -/
def get (s : Counters) : Counter → Nat
  | .begun => s.begun
  | .committed => s.committed
  | .rolledBack => s.rolledBack
  | .elevations => s.elevations
  | .enqueued => s.enqueued
  | .dropped => s.dropped
  | .applied => s.applied
  | .unresolvable => s.unresolvable

/-- Count one more. -/
def bump (s : Counters) : Counter → Counters
  | .begun => { s with begun := s.begun + 1 }
  | .committed => { s with committed := s.committed + 1 }
  | .rolledBack => { s with rolledBack := s.rolledBack + 1 }
  | .elevations => { s with elevations := s.elevations + 1 }
  | .enqueued => { s with enqueued := s.enqueued + 1 }
  | .dropped => { s with dropped := s.dropped + 1 }
  | .applied => { s with applied := s.applied + 1 }
  | .unresolvable => { s with unresolvable := s.unresolvable + 1 }

theorem get_bump (s : Counters) (c d : Counter) :
    (s.bump c).get d = if c = d then s.get d + 1 else s.get d := by
  cases c <;> cases d <;> rfl

/-- The given counters as text: for each its help, its type and its value. -/
def exposition (s : Counters) (shown : List Counter) : String :=
  String.join (shown.map fun c =>
    "# HELP " ++ c.name ++ " " ++ c.help ++ "\n# TYPE " ++ c.name ++ " counter\n" ++
      c.name ++ " " ++ toString (s.get c) ++ "\n")

/-- The counters that counted something. -/
def touched (s : Counters) : List Counter :=
  Counter.all.filter (s.get · ≠ 0)

end Counters

end NestedTxn
