import NestedTxn.Proofs.Lifecycle.Steps
import NestedTxn.Proofs.Resolver.Writers
import NestedTxn.Proofs.Row.Calls
import NestedTxn.Proofs.Visibility.Frames

/-!
# What has nothing to do with the rows

* `Act.Aloof rows a`: whatever does not answer, the operation `a` leaves the rows alone, and if it
  fails, then not because of them.
* So is what a session does to get its reader (`Connection.activeTxn_aloof`), and what a filter does
  but for its one call of the row store (`SnapshotFilter.classifying_aloof`).
-/

namespace NestedTxn

/-- The failure is not one of the row store. -/
def TxnError.BesideRows (e : TxnError) : Prop := ∀ fault, e ≠ .ofRows fault

/-- The operation leaves the rows alone, and does not fail because of them. -/
def Act.Aloof {σ α : Type} (rows : σ → RowStore) (a : Act σ TxnError α) : Prop :=
  Respects (fun s s' => rows s' = rows s) TxnError.BesideRows a

variable {σ α β : Type} {rows : σ → RowStore}

namespace Act.Aloof

theorem pure (x : α) : Aloof rows (Pure.pure x : Act σ TxnError α) :=
  Respects.pure (R := fun s s' => rows s' = rows s) (fun _ => rfl) x

theorem throw {e : TxnError} (h : e.BesideRows) :
    Aloof rows (MonadExcept.throw e : Act σ TxnError α) :=
  Respects.throw (R := fun s s' => rows s' = rows s) (fun _ => rfl) h

theorem bind_get {f : σ → Act σ TxnError α} (h : ∀ s, Aloof rows (f s)) :
    Aloof rows (get >>= f) := fun s => h s s

theorem bind {a : Act σ TxnError α} {f : α → Act σ TxnError β} (ha : Aloof rows a)
    (hf : ∀ x, Aloof rows (f x)) : Aloof rows (a >>= f) :=
  Respects.bind (fun _ _ _ h h' => h'.trans h) ha hf

theorem onSnd {τ : Type} {a : Act σ TxnError α} (h : Aloof rows a) :
    Aloof (fun p : τ × σ => rows p.2) (Act.onSnd a) :=
  Respects.onSnd (R := fun p p' => rows p'.2 = rows p.2) fun _ => h

end Act.Aloof

namespace Services

open Act

theorem besideRows_ledger : (TxnError.unavailable .ledger).BesideRows := fun _ h => by cases h

theorem modify_aloof {f : σ → σ} (h : ∀ s, rows (f s) = rows s) :
    Aloof rows (modify f : Act σ TxnError PUnit) :=
  Respects.of_ok fun s => ⟨⟨⟩, f s, rfl, h s⟩

theorem fetch_aloof (id : TxnId) : Aloof Services.rows (onLedger (Ledger.fetch id)) := by
  intro s
  rcases exec_fetch_cases id s with h | h <;> rw [h]
  · exact ⟨rfl, fun e he => Except.error.inj he ▸ besideRows_ledger⟩
  · exact ⟨rfl, fun e he => by cases he⟩

theorem create_aloof (t : Txn) : Aloof Services.rows (onLedger (Ledger.create t)) := by
  intro s
  rw [exec_onLedger, Ledger.exec_create]
  split
  · split
    · exact ⟨rfl, fun e he fault hf => by cases he; cases hf⟩
    · exact ⟨rfl, fun e he => by cases he⟩
  · exact ⟨rfl, fun e he => Except.error.inj he ▸ besideRows_ledger⟩

theorem tick_aloof : Aloof Services.rows tick := by
  intro s
  cases hr : s.clock.reading s.clock.taken with
  | none =>
    rw [exec_tick_none hr]
    exact ⟨rfl, fun e he fault hf => by cases he; cases hf⟩
  | some ts =>
    rw [exec_tick_some hr]
    exact ⟨rfl, fun e he => by cases he⟩

theorem count_aloof (c : Counter) : Aloof Services.rows (count c) := modify_aloof fun _ => rfl

theorem report_aloof (e : Event) : Aloof Services.rows (report e) := modify_aloof fun _ => rfl

theorem offer_aloof (h : Nat) (origin : Origin) (n : Notice) :
    Aloof Services.rows (offer h origin n) := by
  have hdrop : ∀ reason, Aloof Services.rows (drop n reason) := fun reason =>
    .bind (count_aloof _) fun _ => report_aloof _
  refine .bind_get fun s => ?_
  split
  · exact .pure _
  · split
    · exact hdrop .closed
    · split
      · exact hdrop .full
      · exact .bind (modify_aloof fun _ => rfl) fun _ => count_aloof _

end Services

namespace SnapshotFilter

open Act Services

theorem classifying_aloof : Classifying (fun p p' => p'.2.rows = p.2.rows) TxnError.BesideRows where
  toSearching := .of_fetch (fun _ => rfl) (fun _ _ _ h h' => h'.trans h) (fun _ _ => rfl)
    (fun id => (fetch_aloof id).onSnd) fun _ _ h => by cases h
  note _ _ := rfl
  offer h n := (offer_aloof h .read n).onSnd
  count := (count_aloof _).onSnd
  report e := (report_aloof e).onSnd

theorem load_aloof (reader : Txn) (sink : Option Sink) (maxDepth : Nat) :
    Aloof Services.rows (load reader sink maxDepth) :=
  Searching.load classifying_aloof.toSearching (fun _ _ h => by cases h) reader sink maxDepth

end SnapshotFilter

/-- What a session does to get its reader. -/
theorem Connection.activeTxn_aloof (config : Config) :
    Act.Aloof (fun p : Connection × Services => p.2.rows) (activeTxn config) := by
  have hbegin : Act.Aloof Services.rows (Lifecycle.beginDefault config) :=
    .bind Services.tick_aloof fun _ => .bind (Services.create_aloof _) fun _ =>
      .bind (Services.count_aloof _) fun _ => .bind (Services.report_aloof _) fun _ => .pure _
  refine .bind (.bind_get fun p => ?_) fun _ => .bind_get fun p => ?_
  · split
    · exact .throw fun _ h => by cases h
    · exact .pure _
    · exact .bind hbegin.onSnd fun _ => Services.modify_aloof fun _ => rfl
  · split
    · exact .pure _
    · exact .throw fun _ h => by cases h

end NestedTxn
