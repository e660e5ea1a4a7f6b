import NestedTxn.Proofs.Lifecycle.Booked
import NestedTxn.Proofs.Lifecycle.Outcomes
import NestedTxn.Proofs.Lifecycle.Permission

/-!
# Copies of records

* `Ledger.Copied l t`: `t` was recorded once. What it permits, its record permits
  (`Copied.covers`). `Ledger.Stands l t u`: its record `u` is active; then so is the copy
  (`Txn.Becomes.active`).
* `Ledger.Proper l max`: a sound ledger with each id once, in which permission is closed upwards.
* `Lifecycle.Call.run_proper`: a call with copies leaves a proper ledger. What it hands out are
  copies (`Call.run_copied`).
-/

namespace NestedTxn

namespace Txn

variable {t u : Txn} {table : Table}

/-- What a copy permits, the record permits. -/
theorem LeadsTo.covers (h : t.LeadsTo u) (hw : t.writableFor table = true) :
    u.writableFor table = true := by
  obtain ⟨d, hd, hcov⟩ := (Option.any_eq_true _ _).1 hw
  obtain ⟨d', hd', hwider⟩ := h.wider d hd
  exact (Option.any_eq_true _ _).2 ⟨d', hd', hwider table hcov⟩

/-- The copy of an active record is active. -/
theorem Becomes.active (h : t.Becomes u) (ha : u.state = .active) : t.state = .active := by
  by_contra hn
  rw [h.final hn] at ha
  exact hn ha

end Txn

namespace Ledger

/-- `t` was the record of its id once. -/
def Copied (l : Ledger) (t : Txn) : Prop := ∃ u, l.find? t.id = some u ∧ t.LeadsTo u

/-- `t` was the record of its id once, and the record now is `u`, which is active. -/
structure Stands (l : Ledger) (t u : Txn) : Prop where
  found : l.find? t.id = some u
  leads : t.LeadsTo u
  active : u.state = .active

/-- A sound ledger with each id once, in which permission is closed upwards. -/
structure Proper (l : Ledger) (max : Nat) : Prop where
  sound : l.Sound max
  upClosed : l.UpClosed
  nodup : (l.txns.map (·.id)).Nodup

variable {l l' : Ledger} {max : Nat} {table : Table} {id : TxnId} {t u : Txn}

theorem Copied.leads (h : l.Copied t) (hl : l.Leads l') : l'.Copied t := by
  obtain ⟨u, hu, htu⟩ := h
  obtain ⟨v, hv, huv⟩ := hl _ u hu
  exact ⟨v, hv, htu.trans huv⟩

theorem Copied.of_find? (h : l.find? id = some t) : l.Copied t :=
  ⟨t, by rw [id_of_find? h, h], .refl t⟩

theorem Copied.covers (h : l.Copied t) (hw : t.writableFor table = true) : l.Covers table t.id := by
  obtain ⟨u, hu, htu⟩ := h
  exact ⟨u, hu, htu.covers hw⟩

theorem Copied.stands (h : l.Copied t) (ha : l.state? t.id = some .active) :
    ∃ u, l.Stands t u := by
  obtain ⟨u, hu, htu⟩ := h
  rw [state?, hu] at ha
  exact ⟨u, hu, htu, Option.some.inj ha⟩

theorem proper_nil (h : l.txns = []) : l.Proper max where
  sound := sound_nil h
  upClosed table id a _ hcov := by
    obtain ⟨t, ht, _⟩ := hcov
    simp [find?, h] at ht
  nodup := by simp [h]

theorem Proper.of_txns (h : l.Proper max) (he : l'.txns = l.txns) : l'.Proper max :=
  ⟨h.sound.of_txns he, h.upClosed.of_txns he, he ▸ h.nodup⟩

theorem Proper.finish (h : l.Proper max) (hu : l.find? id = some u) (ha : u.state = .active)
    (o : Outcome) : (l.replace (u.finish o)).Proper max where
  sound := by
    rw [← id_of_find? hu] at hu
    exact h.sound.finish hu ha o
  upClosed := (Opens.finish ⟨.refl l, h.upClosed⟩ hu o).upClosed
  nodup := by
    rw [ids_replace]
    exact h.nodup

/-- A record that is put in its own place. -/
theorem txns_replace_self (hnd : (l.txns.map (·.id)).Nodup) (hu : l.find? id = some u) :
    (l.replace u).txns = l.txns := by
  have hmem : u ∈ l.txns := List.mem_of_find?_eq_some hu
  refine (List.map_congr_left fun v hv => ?_).trans (List.map_id _)
  split
  · next hid => exact List.inj_on_of_nodup_map hnd hmem hv hid.symm
  · rfl

/-- Edits record each id once. -/
theorem Edit.nodup (h : l.Edit l') (hnd : (l.txns.map (·.id)).Nodup) :
    (l'.txns.map (·.id)).Nodup := by
  cases h with
  | look he => rwa [he]
  | create hf _ he =>
    rw [he]
    exact nodup_insert hnd hf
  | finish o _ _ he | grant table _ _ he => rwa [he, ids_replace]

theorem Edits.nodup (h : l.Edits l') (hnd : (l.txns.map (·.id)).Nodup) :
    (l'.txns.map (·.id)).Nodup := by
  induction h with
  | refl => exact hnd
  | tail _ step ih => exact step.nodup ih

end Ledger

namespace Lifecycle

open Services

variable {config : Config} {c : Call} {s s' : Services} {t : Txn}

section

variable (h : s.ledger.Proper config.maxAncestorDepth.toNat)
  (hc : ∀ t ∈ c.subjects, s.ledger.Copied t)
include h hc

/-- A call with copies leaves a proper ledger. -/
theorem Call.run_proper :
    ((c.run config).exec s).2.ledger.Proper config.maxAncestorDepth.toNat := by
  have hbecomes : ∀ t ∈ c.subjects, ∃ u, s.ledger.find? t.id = some u ∧ t.Becomes u := by
    intro t ht
    obtain ⟨u, hu, htu⟩ := hc t ht
    exact ⟨u, hu, htu.toBecomes⟩
  -- the call, in a world that knows no more than the call does
  have hopens := Call.run_opens (w := ⟨c.subjects, s⟩) ⟨h.sound, hbecomes⟩
    ⟨h.upClosed, fun t ht table hw => (hc t ht).covers hw⟩ fun _ ht => ht
  exact ⟨Call.run_sound h.sound hbecomes, (hopens.final ⟨.refl _, h.upClosed⟩).upClosed,
    Ledger.Edits.nodup (c.run_edits config s) h.nodup⟩

omit h in
/-- What it hands out are copies. -/
theorem Call.run_copied {ts : List Txn} (hx : (c.run config).exec s = (.ok ts, s')) (ht : t ∈ ts) :
    s'.ledger.Copied t := by
  rcases Call.run_answer hx ht with hgiven | hfound
  · have hedits := c.run_edits config s
    rw [hx] at hedits
    exact (hc t hgiven).leads hedits.leads
  · exact .of_find? hfound

end

/-- The answer is a child of the transaction that is given. -/
theorem beginChild_parent {parent : Txn} {isolation : Option Isolation} {additive : Bool}
    {table : Option Table}
    (h : (beginChild config parent isolation additive table).exec s = (.ok t, s')) :
    t.parent = some parent.id := by
  rcases beginChild_cases config parent isolation additive table s with
    ⟨e, s₁, hx, _⟩ | ⟨ts, d, s₁, _, _, _, _, hx, _⟩ <;> rw [hx] at h <;> cases h
  rfl

/-- What a copy becomes by an elevation is a copy with the same origin. -/
theorem elevateUnder_copied {table : Table} {parent : Option Txn} {x : Except TxnError Txn}
    (hp : s.ledger.Proper config.maxAncestorDepth.toNat) (ht : s.ledger.Copied t)
    (hparent : ∀ p ∈ parent, s.ledger.Copied p)
    (h : (elevateUnder config t table parent).exec s = (x, s')) :
    s'.ledger.Proper config.maxAncestorDepth.toNat ∧
      ∀ t', x = .ok t' → s'.ledger.Copied t' ∧ t'.origin = t.origin := by
  let call : Call := .elevateUnder t table parent
  have hrun : (call.run config).exec s = (x.map fun t => [t], s') := by
    rw [Call.run, Act.exec_map, h]
  have hc : ∀ u ∈ call.subjects, s.ledger.Copied u :=
    List.forall_mem_cons.2 ⟨ht, by simpa using hparent⟩
  have hproper := Call.run_proper hp hc
  rw [hrun] at hproper
  refine ⟨hproper, ?_⟩
  rintro t' rfl
  refine ⟨Call.run_copied hc hrun (List.mem_singleton_self t'), ?_⟩
  rcases (elevateUnder_elevated h).record with rfl | hfound
  · rfl
  · have hedits := elevateUnder_edits config t table parent s
    rw [h] at hedits
    obtain ⟨u, hu, htu⟩ := ht.leads hedits.leads
    rw [hfound] at hu
    cases hu
    exact htu.origin

end Lifecycle

end NestedTxn
