import NestedTxn.Proofs.Act
import NestedTxn.Visibility.SnapshotFilter

/-!
# What looks through a filter keep

A relation between states, with a kind of failures, is respected by whole walks and reads of a
filter if it is by their steps.

* `SnapshotFilter.Searching R Q`: `R` and `Q` allow for look-ups, as they do if they allow for calls
  of the ledger and for any memo (`Searching.of_fetch`). Then walks respect them
  (`Searching.writerChain`), and so does a fresh filter (`Searching.load`).
* `SnapshotFilter.Classifying R Q`: they allow for reports and notices as well. Then
  classifications respect them (`Classifying.classify`, `firstVisible`, `visibleRows`).
-/

namespace NestedTxn

namespace SnapshotFilter

open Services Act

/-- `R` and `Q` allow for what look-ups do. -/
structure Searching (R : SnapshotFilter × Services → SnapshotFilter × Services → Prop)
    (Q : TxnError → Prop) : Prop where
  refl : ∀ p, R p p
  trans : ∀ p p' p'', R p p' → R p' p'' → R p p''
  lookUp : ∀ id, Respects R Q (lookUp id)
  fault : ∀ fault, Q (.unresolvable fault)

/-- `R` and `Q` allow for what classifications do. -/
structure Classifying (R : SnapshotFilter × Services → SnapshotFilter × Services → Prop)
    (Q : TxnError → Prop) : Prop extends Searching R Q where
  note : ∀ p noted, R p ({ p.1 with noted }, p.2)
  offer : ∀ h n, Respects R Q (Act.onSnd (offer h .read n))
  count : Respects R Q (Act.onSnd (count .unresolvable))
  report : ∀ e, Respects R Q (Act.onSnd (report e))

variable {R : SnapshotFilter × Services → SnapshotFilter × Services → Prop} {Q : TxnError → Prop}

namespace Searching

/-- A relation that allows for any memo allows for look-ups if it does for calls of the ledger. -/
theorem of_fetch (refl : ∀ p, R p p) (trans : ∀ p p' p'', R p p' → R p' p'' → R p p'')
    (memo : ∀ p memo, R p ({ p.1 with memo }, p.2))
    (fetch : ∀ id, Respects R Q (Act.onSnd (onLedger (Ledger.fetch id))))
    (fault : ∀ fault, Q (.unresolvable fault)) : Searching R Q where
  refl := refl
  trans := trans
  fault := fault
  lookUp id := by
    refine .bind_get fun p => ?_
    split
    · exact .pure refl _
    · refine .bind trans (fetch id) fun found => ?_
      cases found with
      | none => exact .pure refl _
      | some t =>
        dsimp only
        split
        · exact .bind trans (.of_ok fun p => ⟨_, _, rfl, memo p _⟩) fun _ => .pure refl _
        · exact .pure refl _

variable (h : Searching R Q)
include h

theorem pure {α : Type} (x : α) : Respects R Q (Pure.pure x) := .pure h.refl x

theorem fails {α : Type} (fault : AncestryFault) :
    Respects R Q (throw (.unresolvable fault) : Act _ _ α) :=
  .throw h.refl (h.fault fault)

theorem ancestorsFrom (budget : Nat) (seen : List TxnId) (id : Option TxnId) :
    Respects R Q (ancestorsFrom budget seen id) := by
  induction budget generalizing seen id with
  | zero =>
    cases id with
    | none => exact h.pure _
    | some id => exact h.fails _
  | succ budget ih =>
    cases id with
    | none => exact h.pure _
    | some id =>
      rw [SnapshotFilter.ancestorsFrom]
      split
      · exact h.fails _
      · refine .bind h.trans (h.lookUp id) fun found => ?_
        cases found with
        | none => exact h.fails _
        | some t => exact .bind h.trans (ih _ _) fun _ => h.pure _

theorem ancestorsOf (t : Txn) : Respects R Q (ancestorsOf t) :=
  .bind_get fun p => h.ancestorsFrom p.1.maxDepth _ _

theorem writerChain (id : TxnId) : Respects R Q (writerChain id) := by
  refine .bind h.trans (h.lookUp id) fun found => ?_
  cases found with
  | none => exact h.fails _
  | some t => exact .bind h.trans (h.ancestorsOf t) fun _ => h.pure _

end Searching

/-- A fresh filter is the walk of a filter that is lost. -/
theorem Searching.load {S : Services → Services → Prop}
    (h : Searching (fun p p' => S p.2 p'.2) Q) (hfault : ∀ fault, Q (.malformedAncestry fault))
    (reader : Txn) (sink : Option Sink) (maxDepth : Nat) :
    Respects S Q (load reader sink maxDepth) := by
  have hreader : ∀ e, Q e → Q (readerFault e) := by
    intro e he
    cases e with
    | unresolvable fault => exact hfault fault
    | _ => exact he
  have hwalk := (((h.ancestorsOf reader).wrap hreader).bind h.trans fun ancestors =>
    Respects.bind_get fun p => h.pure { p.1 with ancestors })
  exact fun s => hwalk (_, s)

namespace Classifying

variable (h : Classifying R Q)
include h

theorem announce (n : Notice) : Respects R Q (announce n) := by
  refine .bind_get fun p => ?_
  split
  · exact h.pure _
  · exact h.pure _
  · exact .of_ok fun p => ⟨_, _, rfl, h.note p _⟩
  · exact h.offer _ n

theorem skip (v : RowVersion) (fault : AncestryFault) : Respects R Q (skip v fault) :=
  .bind h.trans h.count fun _ => .bind h.trans (h.report _) fun _ => h.pure _

theorem classifyByChain (v : RowVersion) (writer : TxnId) :
    Respects R Q (classifyByChain v writer) := by
  refine .bind_attempt h.trans (h.writerChain writer) (fun chain => ?_) fun e he => ?_
  · refine .bind_get fun p => ?_
    split
    · exact h.skip v _
    · split
      · exact .bind h.trans (h.announce _) fun _ => h.pure _
      · exact h.pure _
  · cases e with
    | unresolvable fault => exact h.skip v fault
    | _ => exact .throw h.refl he

theorem classify (v : RowVersion) : Respects R Q (classify v) := by
  rw [SnapshotFilter.classify.eq_def]
  split
  · exact h.skip v .noWriter
  · refine .bind_get fun p => ?_
    split
    · exact h.pure _
    · split
      · exact .bind h.trans (h.report _) fun _ => .bind_get fun _ => h.pure _
      · exact h.classifyByChain v _

theorem firstVisible (vs : List RowVersion) : Respects R Q (firstVisible vs) := by
  induction vs with
  | nil => exact h.pure _
  | cons v vs ih =>
    refine .bind h.trans (h.classify v) fun visibility => ?_
    cases visibility with
    | visible => exact h.pure _
    | hidden => exact ih

theorem visibleRows (decided : Option Key) (vs : List RowVersion) :
    Respects R Q (visibleRows decided vs) := by
  induction vs generalizing decided with
  | nil => exact h.pure _
  | cons v vs ih =>
    rw [SnapshotFilter.visibleRows]
    split
    · exact ih decided
    · refine .bind h.trans (h.classify v) fun visibility => ?_
      cases visibility with
      | hidden => exact ih decided
      | visible =>
        refine .bind h.trans (ih _) fun _ => ?_
        split <;> exact h.pure _

end Classifying

end SnapshotFilter

end NestedTxn
