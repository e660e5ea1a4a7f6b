import NestedTxn.Txn.Basic

/-!
# Timestamp sources

* `Clock`: the readings a source will give, one after the other, and how many were taken.
  A reading may be absent: taking it fails, and uses it up.
* `Clock.startingAt`: counts upwards in 64 bits, from the largest value on to zero.
* `Clock.scripted`: hands out a list, and fails past its end.
-/

namespace NestedTxn

/-- A source of timestamps. -/
structure Clock where
  /-- The readings, in the order in which they are taken. -/
  reading : Nat → Option Timestamp
  /-- Number of readings already taken. -/
  taken : Nat := 0

namespace Clock

/-- The clock that counts upwards from `first` in 64 bits. -/
def startingAt (first : Timestamp) : Clock where
  reading n := some ((first + n) % UInt64.size)

/-- The clock whose first reading is 1. -/
def standard : Clock := startingAt 1

/-- The clock that hands out the elements of `readings`. -/
def scripted (readings : List (Option Timestamp)) : Clock where
  reading n := readings[n]?.join

/-- The next reading, and the clock after it was taken. -/
def next (c : Clock) : Option Timestamp × Clock :=
  (c.reading c.taken, { c with taken := c.taken + 1 })

/-- The next `n` readings, without those that are absent. -/
def upcoming (c : Clock) (n : Nat) : List Timestamp :=
  (List.range n).filterMap fun i => c.reading (c.taken + i)

end Clock

end NestedTxn
