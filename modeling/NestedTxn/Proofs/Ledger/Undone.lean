import NestedTxn.Proofs.Ledger.Growth

/-!
# What was rolled back

`Ledger.Undone l gone l'`: from `l` to `l'` exactly the records in `gone` were rolled back, of those
that `l` has. `Undone.trans` puts two such changes together, `Undone.of_mem` leaves out what was not
recorded.
-/

namespace NestedTxn

namespace Ledger

/-- Every record of `l` is still there in `l'`. It is rolled back if it was, or is in `gone`. -/
def Undone (l : Ledger) (gone : List TxnId) (l' : Ledger) : Prop :=
  ∀ id t, l.find? id = some t →
    ∃ u, l'.find? id = some u ∧ (u.state = .rolledBack ↔ t.state = .rolledBack ∨ id ∈ gone)

variable {l l' l'' : Ledger} {gone gone' : List TxnId} {id : TxnId} {t : Txn}

theorem Undone.of_txns (h : l'.txns = l.txns) : l.Undone [] l' :=
  fun id t ht => ⟨t, by rw [find?_congr h, ht], by simp⟩

theorem Undone.trans (h : l.Undone gone l') (h' : l'.Undone gone' l'') :
    l.Undone (gone ++ gone') l'' := by
  intro id t ht
  obtain ⟨u, hu, hut⟩ := h id t ht
  obtain ⟨v, hv, hvu⟩ := h' id u hu
  refine ⟨v, hv, ?_⟩
  rw [hvu, hut, List.mem_append, or_assoc]

/-- What is not recorded does not matter. -/
theorem Undone.of_mem (h : l.Undone gone l')
    (hg : ∀ id, l.find? id ≠ none → (id ∈ gone ↔ id ∈ gone')) : l.Undone gone' l' := by
  intro id t ht
  obtain ⟨u, hu, hut⟩ := h id t ht
  refine ⟨u, hu, ?_⟩
  rw [hut, hg id (by rw [ht]; nofun)]

/-- Nothing that was recorded is lost. -/
theorem Undone.unrecorded (h : l.Undone gone l') (hn : l'.find? id = none) : l.find? id = none := by
  cases ht : l.find? id with
  | none => rfl
  | some t =>
    obtain ⟨u, hu, _⟩ := h id t ht
    rw [hn] at hu
    cases hu

theorem undone_insert (hf : l.find? t.id = none) : l.Undone [] (l.insert t) := by
  intro id u hu
  have hne : t.id ≠ id := by
    rintro rfl
    rw [hf] at hu
    cases hu
  exact ⟨u, by rw [find?_insert, if_neg hne, hu], by simp⟩

theorem undone_replace (ht : l.find? id = some t) :
    l.Undone [id] (l.replace (t.finish .rolledBack)) := by
  intro other u hu
  rw [find?_replace, Txn.finish_id, id_of_find? ht]
  split
  · next heq =>
    subst heq
    refine ⟨t.finish .rolledBack, by rw [hu]; rfl, ?_⟩
    simp [Txn.finish]
  · next hne =>
    refine ⟨u, hu, ?_⟩
    simp [Ne.symm hne]

end Ledger

end NestedTxn
