/-!
# Availability of a store

* `Switch`: whether a store answers now, and where the switch will stand at each of its next
  calls. Every pattern of outages is a plan.
* `Switch.advance`: one call moves the switch to its planned position.
* `Switch.steady`: never moves. `Switch.fused`: stays for a number of calls, then goes off for
  good.
-/

namespace NestedTxn

/-- The switch of a store. -/
structure Switch where
  /-- Whether the store answers. -/
  on : Bool := true
  /-- The position of the switch at each call to come, counted from when the plan was made. -/
  plan : Nat → Bool := fun _ => true
  /-- Number of calls since the plan was made. -/
  calls : Nat := 0

namespace Switch

/-- Move the switch to its position for the next call. -/
def advance (s : Switch) : Switch :=
  { s with on := s.plan s.calls, calls := s.calls + 1 }

/-- A switch that stays where it is put. -/
def steady (on : Bool) : Switch where
  on
  plan _ := on

/-- The switch as it stands, going off for good after `n` more calls. -/
def fused (s : Switch) (n : Nat) : Switch where
  on := s.on
  plan i := s.on && decide (i < n)

end Switch

end NestedTxn
