import NestedTxn.Proofs.Connection.Steps

/-!
# What all steps of a connection keep

* `Connection.Unwinding config R`: what ends entries of a connection, one by one, leads from a state
  to one that `R` relates to it, whether or not it fails. Then so do `abort` and `close`.
* `Connection.Stepwise config R`: so does what begins or elevates entries, and the switch of the
  savepoints. Then so does every call but a commit (`Stepwise.setSavepoint` and so on). A commit clears
  the whole stack at once, which is not a step in this sense.
-/

namespace NestedTxn

namespace Connection

open Services

/-- What ends entries leads to states that `R` relates to the ones before. -/
structure Unwinding (config : Config)
    (R : Connection × Services → Connection × Services → Prop) : Prop where
  refl : ∀ p, R p p
  trans : ∀ p p' p'', R p p' → R p' p'' → R p p''
  report : ∀ p e, R p (p.1, p.2.reported e)
  settle : ∀ p, R p (p.1.settle, p.2)
  /-- A connection with nothing in flight may change its phase. -/
  rest : ∀ p phase, p.1.phase ≠ .active ∨ p.1.stack = [] → R p ({ p.1 with phase }, p.2)
  rollbackTop : Act.Keeps R (dropTop Lifecycle.rollback)
  commitTop : Act.Keeps R (dropTop fun t => discard (Lifecycle.commit config t))

/-- Every step of a connection leads to a state that `R` relates to the one before. -/
structure Stepwise (config : Config)
    (R : Connection × Services → Connection × Services → Prop) : Prop
    extends Unwinding config R where
  suppress : ∀ p on, R p (p.1.suppress on, p.2)
  ensureActive : Act.Keeps R (ensureActive config)
  pushChild : ∀ name, Act.Keeps R (pushChild config name)
  elevateEntries : ∀ table, Act.Keeps R (elevateEntries config table)

variable {config : Config} {R : Connection × Services → Connection × Services → Prop}

namespace Unwinding

variable (h : Unwinding config R)
include h

theorem trace (done : Bool) (call : ConnectionCall) (subject : String) :
    Act.Keeps R (trace done call subject) :=
  fun p => h.report p (.connection p.1 done call subject)

theorem leaf : Act.Keeps R leaf := by
  intro p
  rw [Connection.leaf, Act.exec_bind_ok (Act.exec_get p)]
  cases p.1.leaf? <;> exact h.refl p

theorem find (name : String) : Act.Keeps R (find name) := by
  intro p
  rcases hx : (Connection.find name).exec p with ⟨x, q⟩
  rw [find_same hx]
  exact h.refl p

section

variable {finish : Txn → Act Services TxnError Unit} (hfin : Act.Keeps R (dropTop finish))
include hfin

theorem unwind (n : Nat) : Act.Keeps R (unwind finish n) := by
  induction n with
  | zero => exact h.refl
  | succ n ih =>
    rw [unwind_succ]
    exact .bind h.trans hfin fun _ => ih

theorem unwindTo (name : String) : Act.Keeps R (unwindTo name finish) :=
  .bind h.trans (h.find name) fun _ => .bind h.trans h.refl fun _ =>
    .bind h.trans (h.unwind hfin _) fun _ => h.settle

end

theorem abort : Act.Keeps R abort := by
  rw [abort_eq]
  refine .bind h.trans (h.trace _ _ _) fun _ p => ?_
  rw [Act.exec_bind_ok (Act.exec_get p)]
  split
  · exact h.refl p
  · have hu := h.unwind h.rollbackTop p.1.depth p
    rcases hx : (Connection.unwind Lifecycle.rollback p.1.depth).exec p with ⟨e | x, q⟩
    · rw [hx] at hu
      rw [Act.exec_bind_error hx]
      exact hu
    · rw [hx] at hu
      rw [Act.exec_bind_ok hx]
      -- nothing is left of the stack
      have hst : q.1.stack = [] := by simp [(unwind_ok hx).2, depth]
      exact h.trans _ _ _ hu (Act.Keeps.bind_at h.trans (h.rest q .idle (.inr hst)) fun _ =>
        h.trace _ _ _)

theorem close : Act.Keeps R close := by
  intro p
  have ha := h.abort p
  rcases hx : Connection.abort.exec p with ⟨e | x, q⟩
  · rw [hx] at ha
    rw [Connection.close, Act.exec_bind_error hx]
    exact ha
  · rw [hx] at ha
    rw [Connection.close, Act.exec_bind_ok hx]
    have hph : q.1.phase ≠ .active := by
      rw [abort_ok hx]
      split
      · simp
      · assumption
    exact h.trans _ _ _ ha (h.rest q .closed (.inl hph))

end Unwinding

namespace Stepwise

variable (h : Stepwise config R)
include h

theorem heed (name : String) (on : Bool) : Act.Keeps R (heed name on) := by
  intro p
  rw [Connection.heed]
  split
  · exact h.suppress p on
  · exact h.refl p

theorem activeTxn : Act.Keeps R (activeTxn config) :=
  .bind h.trans h.ensureActive fun _ => h.leaf

theorem setSavepoint (name : String) : Act.Keeps R (setSavepoint config name) := by
  rw [setSavepoint_eq]
  refine .bind h.trans h.refl fun p => ?_
  split
  · exact h.refl
  · exact .bind h.trans (h.heed name true) fun _ => .bind h.trans (h.trace _ _ _) fun _ =>
      .bind h.trans h.ensureActive fun _ => .bind h.trans (h.pushChild name) fun _ =>
      .bind h.trans (h.trace _ _ _) fun _ => .bind h.trans h.refl fun _ => h.refl

theorem releaseSavepoint (name : String) : Act.Keeps R (releaseSavepoint config name) := by
  rw [releaseSavepoint_eq]
  refine .bind h.trans (h.heed name false) fun _ => .bind h.trans h.refl fun p => ?_
  split
  · exact h.refl
  · exact .bind h.trans (h.trace _ _ _) fun _ =>
      .bind h.trans (h.unwindTo h.commitTop name) fun _ => .bind h.trans (h.trace _ _ _) fun _ =>
      .bind h.trans h.refl fun _ => h.refl

theorem rollbackTo (name : String) : Act.Keeps R (rollbackTo config name) := by
  rw [Connection.rollbackTo]
  refine .bind h.trans h.refl fun p => ?_
  split
  · exact h.refl
  · exact .bind h.trans (h.trace _ _ _) fun _ =>
      .bind h.trans (h.unwindTo h.rollbackTop name) fun _ =>
      .bind h.trans (h.setSavepoint name) fun _ => .bind h.trans (h.trace _ _ _) fun _ => h.refl

theorem elevate (table : Table) : Act.Keeps R (elevate config table) := by
  rw [elevate_eq]
  exact .bind h.trans (h.trace _ _ _) fun _ => .bind h.trans h.ensureActive fun _ =>
    .bind h.trans (h.elevateEntries table) fun _ => .bind h.trans (h.trace _ _ _) fun _ => h.leaf

end Stepwise

end Connection

end NestedTxn
