import Mathlib.Logic.Relation
import NestedTxn.Proofs.Ledger.Growth

/-!
# Single changes of a ledger

* `Ledger.Edit l l'`: all that one call can do to the records. A new one comes, or an active one is
  finished or granted a table. `Ledger.Edits`: any number of them.
* `Txn.LeadsTo t u`: `u` may be found later where `t` is recorded now. Beside what `Txn.Becomes` says,
  its destination is at least as wide. `Ledger.Leads`: every record is still there, or what it led
  to (`Edits.leads`).
* `Txn.Stamped`: a transaction says when it was committed iff it was, and only then at which time
  its outermost ancestor was. Edits keep all records so (`Edits.stamped`).
-/

namespace NestedTxn

namespace Txn

/-- The transaction says when it was committed iff it was. It says when its outermost ancestor was
only if it was committed itself. -/
structure Stamped (t : Txn) : Prop where
  commit : t.commitTimestamp.isSome ↔ t.state = .committed
  global : t.globalCommitTimestamp.isSome → t.state = .committed

/-- `u` may be recorded later where `t` is recorded now, with a destination as wide or wider. -/
structure LeadsTo (t u : Txn) : Prop extends t.Becomes u where
  wider : ∀ d, t.destination = some d →
    ∃ d', u.destination = some d' ∧ ∀ table, d.covers table = true → d'.covers table = true

variable {t u v : Txn}

theorem LeadsTo.refl (t : Txn) : t.LeadsTo t := ⟨.refl t, fun d hd => ⟨d, hd, fun _ h => h⟩⟩

theorem LeadsTo.trans (h : t.LeadsTo u) (h' : u.LeadsTo v) : t.LeadsTo v := by
  refine ⟨h.toBecomes.trans h'.toBecomes, fun d hd => ?_⟩
  obtain ⟨d', hd', hcov⟩ := h.wider d hd
  obtain ⟨d'', hd'', hcov'⟩ := h'.wider d' hd'
  exact ⟨d'', hd'', fun table hw => hcov' table (hcov table hw)⟩

theorem LeadsTo.finish (ha : t.state = .active) (o : Outcome) : t.LeadsTo (t.finish o) :=
  ⟨.finish ha o, fun d hd => ⟨d, by cases o <;> exact hd, fun _ h => h⟩⟩

theorem LeadsTo.grant (ha : t.state = .active) (table : Table) : t.LeadsTo (t.grant table) := by
  refine ⟨.grant ha table, fun d hd => ⟨d.insert table, ?_, fun other hw => ?_⟩⟩
  · simp [Txn.grant, hd]
  · simp [hw]

/-- A transaction as it is created. -/
theorem stamped_of_new (h : t.bare = t.origin) : t.Stamped := by
  have hstate : t.state = .active := congrArg Txn.state h
  have hcommit : t.commitTimestamp = none := congrArg Txn.commitTimestamp h
  have hglobal : t.globalCommitTimestamp = none := congrArg Txn.globalCommitTimestamp h
  exact ⟨by simp [hcommit, hstate], by simp [hglobal]⟩

theorem stamped_finish (t : Txn) (o : Outcome) : (t.finish o).Stamped := by
  cases o <;> exact ⟨by simp [Txn.finish], by simp [Txn.finish]⟩

theorem Stamped.grant (h : t.Stamped) (table : Table) : (t.grant table).Stamped :=
  ⟨h.commit, h.global⟩

end Txn

namespace Ledger

/-- From `l` to `l'` at most one record changed. -/
inductive Edit (l l' : Ledger) : Prop
  /-- No record changed. -/
  | look : l'.txns = l.txns → Edit l l'
  /-- A transaction was created, and its id was not in use. -/
  | create {t : Txn} : l.find? t.id = none → t.bare = t.origin →
      l'.txns = (l.insert t).txns → Edit l l'
  /-- An active transaction was finished. -/
  | finish {id : TxnId} {u : Txn} (o : Outcome) : l.find? id = some u → u.state = .active →
      l'.txns = (l.replace (u.finish o)).txns → Edit l l'
  /-- An active transaction was granted a table. -/
  | grant {id : TxnId} {u : Txn} (table : Table) : l.find? id = some u → u.state = .active →
      l'.txns = (l.replace (u.grant table)).txns → Edit l l'

/-- Any number of changes. -/
def Edits : Ledger → Ledger → Prop := Relation.ReflTransGen Edit

/-- Every record of `l` is still there in `l'`, or what it led to. -/
def Leads (l l' : Ledger) : Prop :=
  ∀ id t, l.find? id = some t → ∃ u, l'.find? id = some u ∧ t.LeadsTo u

/-- All records are stamped. -/
def Stamped (l : Ledger) : Prop := ∀ id t, l.find? id = some t → t.Stamped

variable {l l' l'' : Ledger} {id : TxnId} {t u : Txn}

theorem Leads.refl (l : Ledger) : l.Leads l := fun _ t h => ⟨t, h, .refl t⟩

theorem Leads.trans (h : l.Leads l') (h' : l'.Leads l'') : l.Leads l'' := by
  intro id t ht
  obtain ⟨u, hu, htu⟩ := h id t ht
  obtain ⟨v, hv, huv⟩ := h' id u hu
  exact ⟨v, hv, htu.trans huv⟩

theorem Leads.of_txns (h : l.Leads l') (he : l''.txns = l'.txns) : l.Leads l'' := by
  intro id t ht
  obtain ⟨u, hu, htu⟩ := h id t ht
  exact ⟨u, by rw [find?_congr he, hu], htu⟩

theorem leads_insert (hf : l.find? t.id = none) : l.Leads (l.insert t) := by
  intro id u hu
  have hne : t.id ≠ id := by
    rintro rfl
    rw [hf] at hu
    cases hu
  exact ⟨u, by rw [find?_insert, if_neg hne, hu], .refl u⟩

theorem leads_replace (ht : l.find? id = some t) (hu : t.LeadsTo u) : l.Leads (l.replace u) := by
  have hid : u.id = id := (Txn.id_of_origin hu.origin).trans (id_of_find? ht)
  intro id' v hv
  rw [find?_replace, hid]
  split
  · next h =>
    subst h
    rw [ht] at hv
    cases hv
    exact ⟨u, by simp [ht], hu⟩
  · exact ⟨v, hv, .refl v⟩

theorem Edit.leads (h : l.Edit l') : l.Leads l' := by
  cases h with
  | look he => exact (Leads.refl l).of_txns he
  | create hf _ he => exact (leads_insert hf).of_txns he
  | finish o hu ha he => exact (leads_replace hu (.finish ha o)).of_txns he
  | grant table hu ha he => exact (leads_replace hu (.grant ha table)).of_txns he

theorem Edits.leads (h : l.Edits l') : l.Leads l' := by
  induction h with
  | refl => exact .refl l
  | tail _ step ih => exact ih.trans step.leads

/-- A record after a change is what another record was changed to, or was there before. -/
theorem Stamped.replace (h : l.Stamped) (hu : u.Stamped) : (l.replace u).Stamped := by
  intro id v hv
  rw [find?_replace] at hv
  split at hv
  · obtain ⟨_, _, rfl⟩ := Option.map_eq_some_iff.1 hv
    exact hu
  · exact h id v hv

theorem Stamped.of_txns (h : l.Stamped) (he : l'.txns = l.txns) : l'.Stamped :=
  fun id t ht => h id t (by rwa [← find?_congr he])

theorem Edit.stamped (h : l.Edit l') (hl : l.Stamped) : l'.Stamped := by
  cases h with
  | look he => exact hl.of_txns he
  | @create t _ hnew he =>
    refine Stamped.of_txns (fun id v hv => ?_) he
    rw [find?_insert] at hv
    split at hv
    · cases hv
      exact Txn.stamped_of_new hnew
    · exact hl id v hv
  | @finish id u o _ _ he => exact (hl.replace (u.stamped_finish o)).of_txns he
  | @grant id u table hu _ he => exact (hl.replace ((hl id u hu).grant table)).of_txns he

theorem Edits.stamped (h : l.Edits l') (hl : l.Stamped) : l'.Stamped := by
  induction h with
  | refl => exact hl
  | tail _ step ih => exact step.stamped ih

theorem stamped_nil (h : l.txns = []) : l.Stamped := by
  intro id t ht
  simp [find?, h] at ht

end Ledger

end NestedTxn
