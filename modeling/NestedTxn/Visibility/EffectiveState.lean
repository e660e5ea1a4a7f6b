import NestedTxn.Error

/-!
# Effective states

* `EffectiveState`: the state of a transaction after dependent rollbacks are taken into account.
* `effectiveState`: reads it off the chain of a transaction and its ancestors, nearest first. A
  rolled back node on the dependent part of the chain wins; otherwise the outermost node of that
  part decides, so that a committed ancestor settles descendants that are still recorded as
  active.
-/

namespace NestedTxn

/-- State of a transaction after dependent rollbacks. -/
inductive EffectiveState where
  /-- The outcome is not final yet. -/
  | active
  /-- Final: visible to snapshots at or after `commitTs`, the commit timestamp of the outermost
  ancestor. -/
  | committed (commitTs : Timestamp)
  /-- Final: never visible. -/
  | rolledBack
deriving DecidableEq

/-- The final outcome, if there is one. -/
def EffectiveState.resolution? : EffectiveState → Option Resolution
  | .active => none
  | .committed ts => some (.committed ts)
  | .rolledBack => some .rolledBack

/-- The effective state of a transaction that stands alone. -/
def Txn.ownState (t : Txn) : Except AncestryFault EffectiveState :=
  match t.state, t.commitTimestamp with
  | .active, _ => .ok .active
  | .rolledBack, _ => .ok .rolledBack
  | .committed, some ts => .ok (.committed ts)
  | .committed, none => .error (.commitWithoutTimestamp t.id)

/-- The effective state of the first transaction of a chain, which holds a transaction and its
ancestors, nearest first. -/
def effectiveState : List Txn → Except AncestryFault EffectiveState
  | [] => .error .noRoot
  | t :: ancestors =>
    if t.state = .rolledBack then .ok .rolledBack
    else if t.standsAlone then t.ownState
    else effectiveState ancestors

end NestedTxn
