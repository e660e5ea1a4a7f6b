import NestedTxn.Database.Basic
import NestedTxn.Proofs.Act

/-!
# What the writers of resolutions keep

A relation between services is kept while the writers run, however far and in whatever order, if it
is kept when one notice is written back and when queues and turns change (`Services.Writing`,
`Writing.runWriters`, `Writing.shutdown`).
-/

namespace NestedTxn

namespace Services

open Act

/-- `R` allows for what the writers of resolutions do. -/
structure Writing (R : Services → Services → Prop) : Prop where
  refl : ∀ s, R s s
  trans : ∀ s s' s'', R s s' → R s' s'' → R s s''
  queues : ∀ s queues turns, R s { s with queues, turns }
  writeBack : ∀ {ε : Type} (n : Notice), Keeps R (writeBack n : Act Services ε Unit)

namespace Writing

variable {R : Services → Services → Prop} (h : Writing R) {ε : Type}
include h

theorem work (i budget : Nat) : Keeps R (work i budget : Act Services ε Unit) := by
  induction budget with
  | zero => exact fun s => h.queues s s.queues _
  | succ budget ih =>
    refine .bind h.trans h.refl fun s => ?_
    split
    · exact h.refl
    · split
      · exact h.refl
      · exact .bind h.trans (fun s => h.queues s _ s.turns) fun _ =>
          .bind h.trans (h.writeBack _) fun _ => ih
      · exact fun s => h.queues s _ s.turns

theorem repeatTurns (count : Nat) : Keeps R (repeatTurns count : Act Services ε Unit) := by
  induction count with
  | zero => exact h.refl
  | succ count ih =>
    have hturns : Keeps R (runTurns : Act Services ε Unit) :=
      .bind h.trans h.refl fun _ => .bind h.trans (fun s => h.queues s s.queues _) fun _ =>
        .forM h.refl h.trans (fun i => h.work i _) _
    exact .bind h.trans hturns fun _ => ih

theorem runWriters : Keeps R (runWriters : Act Services ε Unit) :=
  .bind h.trans h.refl fun _ => h.repeatTurns _

theorem shutQueue (i : Nat) : Keeps R (shutQueue i : Act Services ε Unit) := by
  refine .bind h.trans h.refl fun s => ?_
  split
  · exact h.refl
  · split
    · exact h.refl
    · exact .bind h.trans (fun s => h.queues s _ _) fun _ => h.repeatTurns _

theorem shutdown (db : Database) : Keeps R (db.shutdown : Act Services ε Unit) := by
  unfold Database.shutdown
  split
  · exact h.shutQueue _
  · exact h.refl

end Writing

end Services

end NestedTxn
