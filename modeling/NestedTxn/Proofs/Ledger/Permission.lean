import NestedTxn.Proofs.Ledger.Ancestry

/-!
# Write permission

* `Ledger.Covers l table id`: the record of `id` permits writes to `table`.
* `Ledger.UpClosed`: what covers a table has ancestors that cover it. A new record keeps this if its
  parent covers what it covers (`UpClosed.insert`), a changed one if its parent covers what was
  added to it (`UpClosed.replace`).
* `Ledger.Widens l l'`: records of `l` permit at least as much in `l'`.
* `Ledger.Grants table l l'`: `table` was added to some destinations, and nothing else changed.
-/

namespace NestedTxn

theorem Destination.ext_covers {d d' : Destination} (h : ∀ table, d.covers table = d'.covers table) :
    d = d' := by
  obtain ⟨l, hl⟩ := d
  obtain ⟨l', hl'⟩ := d'
  have hmem : ∀ table, table ∈ l ↔ table ∈ l' := by
    intro table
    simpa [Destination.covers] using h table
  congr
  -- an ascending list is known by its elements
  refine List.Perm.eq_of_pairwise ?_ hl hl' ?_
  · exact fun a b _ _ hab hba => absurd hba (String.lt_asymm hab)
  · refine (List.perm_ext_iff_of_nodup ?_ ?_).2 hmem
    · exact hl.imp fun hab => String.ne_of_lt hab
    · exact hl'.imp fun hab => String.ne_of_lt hab

/-- A second grant of a table changes nothing. -/
@[simp] theorem Txn.grant_grant (t : Txn) (table : Table) :
    (t.grant table).grant table = t.grant table := by
  unfold Txn.grant
  congr 2
  refine Destination.ext_covers fun u => ?_
  rw [Bool.eq_iff_iff]
  cases t.destination <;> simp

namespace Ledger

/-- The record of `id` permits writes to `table`. -/
def Covers (l : Ledger) (table : Table) (id : TxnId) : Prop :=
  ∃ t, l.find? id = some t ∧ t.writableFor table = true

/-- Whenever a transaction covers a table, so does each of its ancestors. -/
def UpClosed (l : Ledger) : Prop :=
  ∀ table id a, l.Ancestor id a → l.Covers table id → l.Covers table a

/-- Every record of `l` is still there in `l'` and permits at least as much. -/
def Widens (l l' : Ledger) : Prop :=
  ∀ id t, l.find? id = some t →
    ∃ u, l'.find? id = some u ∧ ∀ table, t.writableFor table = true → u.writableFor table = true

/-- From `l` to `l'` every record is unchanged, or `table` was added to its destination. -/
def Grants (table : Table) (l l' : Ledger) : Prop :=
  ∀ id, l'.find? id = l.find? id ∨ l'.find? id = (l.find? id).map (·.grant table)

variable {l l' l'' : Ledger} {table : Table} {id p : TxnId} {t u : Txn}

/-! ## Wider permissions -/

theorem Widens.refl (l : Ledger) : l.Widens l := fun _ t ht => ⟨t, ht, fun _ hw => hw⟩

theorem Widens.trans (h : l.Widens l') (h' : l'.Widens l'') : l.Widens l'' := by
  intro id t ht
  obtain ⟨u, hu, htu⟩ := h id t ht
  obtain ⟨v, hv, huv⟩ := h' id u hu
  exact ⟨v, hv, fun table hw => huv table (htu table hw)⟩

theorem Covers.widens (h : l.Covers table id) (hw : l.Widens l') : l'.Covers table id := by
  obtain ⟨t, ht, hcov⟩ := h
  obtain ⟨u, hu, htu⟩ := hw id t ht
  exact ⟨u, hu, htu table hcov⟩

theorem Widens.of_txns (h : l'.txns = l.txns) : l.Widens l' :=
  fun id t ht => ⟨t, by rw [find?_congr h, ht], fun _ hw => hw⟩

theorem widens_insert (hf : l.find? t.id = none) : l.Widens (l.insert t) := by
  intro id u hu
  refine ⟨u, ?_, fun _ hw => hw⟩
  have hne : t.id ≠ id := by
    rintro rfl
    rw [hf] at hu
    cases hu
  rw [find?_insert, if_neg hne, hu]

theorem widens_replace (ht : l.find? u.id = some t)
    (hw : ∀ table, t.writableFor table = true → u.writableFor table = true) :
    l.Widens (l.replace u) := by
  intro id v hv
  by_cases hid : u.id = id
  · subst hid
    rw [ht] at hv
    cases hv
    exact ⟨u, by simp [find?_replace, ht], hw⟩
  · exact ⟨v, by rw [find?_replace, if_neg hid, hv], fun _ hw => hw⟩

/-! ## Grants -/

theorem Grants.refl (table : Table) (l : Ledger) : Grants table l l := fun _ => .inl rfl

theorem Grants.trans (h : Grants table l l') (h' : Grants table l' l'') : Grants table l l'' := by
  intro id
  rcases h id with hl | hl <;> rcases h' id with hl' | hl'
  · exact .inl (hl'.trans hl)
  · exact .inr (by rw [hl', hl])
  · exact .inr (by rw [hl', hl])
  · refine .inr ?_
    rw [hl', hl]
    cases l.find? id <;> simp

theorem Grants.of_txns (h : l'.txns = l.txns) : Grants table l l' :=
  fun id => .inl (find?_congr h id)

theorem grants_replace (ht : l.find? id = some t) : Grants table l (l.replace (t.grant table)) := by
  intro id'
  rw [find?_replace, Txn.grant_id, id_of_find? ht]
  split
  · next hid =>
    subst hid
    simp [ht]
  · exact .inl rfl

theorem Grants.widens (h : Grants table l l') : l.Widens l' := by
  intro id t ht
  rcases h id with hl | hl
  · exact ⟨t, by rw [hl, ht], fun _ hw => hw⟩
  · refine ⟨t.grant table, by rw [hl, ht]; rfl, fun other hw => ?_⟩
    exact Txn.writableFor_grant.2 (.inr hw)

/-! ## Closed upwards -/

/-- One step from child to parent is enough. -/
theorem upClosed_iff :
    l.UpClosed ↔ ∀ table id p, l.ParentOf id p → l.Covers table id → l.Covers table p := by
  constructor
  · exact fun h table id p hp => h table id p (.single hp)
  · intro h table id a ha hcov
    induction ha with
    | single hp => exact h table _ _ hp hcov
    | tail _ hp ih => exact h table _ _ hp ih

theorem UpClosed.of_txns (h : l.UpClosed) (he : l'.txns = l.txns) : l'.UpClosed := by
  have hf := find?_congr he
  rw [upClosed_iff] at h ⊢
  intro table id p hp hcov
  have hp' : l.ParentOf id p := by simpa [ParentOf, hf] using hp
  have hcov' : l.Covers table id := by simpa [Covers, hf] using hcov
  exact (h table id p hp' hcov').widens (.of_txns he)

/-- A new record keeps permission closed upwards if its parent covers what it covers. -/
theorem UpClosed.insert (h : l.UpClosed) (hf : l.find? t.id = none)
    (ht : ∀ table p, t.parent = some p → t.writableFor table = true → l.Covers table p) :
    (l.insert t).UpClosed := by
  have hw := widens_insert hf
  rw [upClosed_iff] at h ⊢
  rintro table id p ⟨u, hu, hp⟩ ⟨u', hu', hcov⟩
  rw [hu] at hu'
  cases hu'
  rw [find?_insert] at hu
  split at hu
  · cases hu
    exact (ht table p hp hcov).widens hw
  · exact (h table id p ⟨u, hu, hp⟩ ⟨u, hu, hcov⟩).widens hw

/-- A changed record keeps permission closed upwards if its parent covers what was added to it. -/
theorem UpClosed.replace (h : l.UpClosed) (ht : l.find? u.id = some t) (hparent : u.parent = t.parent)
    (hkeep : ∀ table, t.writableFor table = true → u.writableFor table = true)
    (hadd : ∀ table p, t.parent = some p → u.writableFor table = true →
      t.writableFor table = true ∨ l.Covers table p) : (l.replace u).UpClosed := by
  have hw := widens_replace ht hkeep
  rw [upClosed_iff] at h ⊢
  rintro table id p ⟨v, hv, hp⟩ ⟨v', hv', hcov⟩
  rw [hv] at hv'
  cases hv'
  rw [find?_replace] at hv
  split at hv
  · next hid =>
    subst hid
    rw [ht] at hv
    cases hv
    rw [hparent] at hp
    rcases hadd table p hp hcov with hold | hpcov
    · exact (h table u.id p ⟨t, ht, hp⟩ ⟨t, ht, hold⟩).widens hw
    · exact hpcov.widens hw
  · exact (h table id p ⟨v, hv, hp⟩ ⟨v, hv, hcov⟩).widens hw

end Ledger

end NestedTxn
