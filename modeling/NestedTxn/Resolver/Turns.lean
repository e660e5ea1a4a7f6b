/-!
# Turns of writers

Every queue of notices has a writer, which sleeps until it is woken. `Turns` are the writers that
are awake, in the order in which they will run.

* `Turns.wake`: a writer woken by a read runs before those that were woken by a direct call. One
  that is awake keeps its turn.
* `Turns.order`: who runs, in order. `Turns.putFirst`: a writer that has to run again.
* `mem_order_wake`: the writer that was woken is awake, and no other one changes.
-/

namespace NestedTxn

/-- Where a notice comes from. -/
inductive Origin where
  /-- From a read of a transaction. -/
  | read
  /-- From a direct call. -/
  | direct
deriving DecidableEq

/-- The writers that are awake, by the number of their queue. -/
structure Turns where
  /-- Those that run first. -/
  first : List Nat := []
  /-- Those that run after them. -/
  later : List Nat := []
deriving DecidableEq

namespace Turns

/-- Who runs, in order. -/
def order (t : Turns) : List Nat := t.first ++ t.later

/-- Wake a writer. -/
def wake (t : Turns) (origin : Origin) (h : Nat) : Turns :=
  if h ∈ t.order then t
  else
    match origin with
    | .read => { t with first := t.first ++ [h] }
    | .direct => { t with later := t.later ++ [h] }

/-- Let a writer run before all others. -/
def putFirst (t : Turns) (h : Nat) : Turns := { t with first := h :: t.first }

theorem mem_order_wake {t : Turns} {origin : Origin} {h i : Nat} :
    i ∈ (t.wake origin h).order ↔ i = h ∨ i ∈ t.order := by
  unfold wake
  split
  · next hm => exact ⟨Or.inr, fun hi => hi.elim (· ▸ hm) id⟩
  · cases origin <;> simp only [order, List.mem_append, List.mem_singleton] <;> grind

end Turns

end NestedTxn
