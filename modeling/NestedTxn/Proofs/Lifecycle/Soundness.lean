import NestedTxn.Proofs.Lifecycle.Elevation

/-!
# The lifecycle keeps ledgers sound

* `Services.Evolves s s'`: the records of `s` are still there in `s'`, or what they became. Every
  operation of the lifecycle does that, whatever it is given (`beginRoot_evolves` and so on).
* A sound ledger stays sound (`beginRoot_sound` and so on). `beginChild` has to be given a parent
  that was recorded; the other operations may be given anything.
-/

namespace NestedTxn

namespace Services

/-- The records of `s` are still there in `s'`, or what they became. -/
structure Evolves (s s' : Services) : Prop extends s.Spares s' where
  grows : s.ledger.Grows s'.ledger

theorem Regrants.evolves {s s' : Services} (h : s.Regrants s') : s.Evolves s' :=
  ⟨h.toSpares, h.grows⟩

theorem Looks.evolves {s s' : Services} (h : s.Looks s') : s.Evolves s' := h.regrants.evolves

theorem Records.evolves {s s' : Services} {l : Ledger} (h : s.Records l s')
    (hl : s.ledger.Grows l) : s.Evolves s' :=
  ⟨h.toSpares, hl.trans (.of_txns h.txns)⟩

end Services

/-! ## Where the operations put their records -/

namespace Ledger

variable {l : Ledger} {max : Nat} {t : Txn}

theorem placed_root (id : TxnId) (isolation : Isolation) :
    l.Placed max (.root id id isolation) where
  root _ := rfl
  child p h := by cases h
  shallow := Nat.zero_le _
  stamped := by simp [Txn.root]

/-- A child of a record that is not too deep is one level deeper. -/
theorem placed_child {u parent : Txn} {config : Config} (id : TxnId) (isolation : Isolation)
    (additive : Bool) (destination : Option Destination) (hu : l.find? parent.id = some u)
    (ho : u.origin = parent.origin) (hd : parent.depth < config.maxAncestorDepth) :
    l.Placed config.maxAncestorDepth.toNat
      (.child id id parent isolation additive destination) := by
  have hlt : parent.depth.toNat < config.maxAncestorDepth.toNat := UInt64.lt_iff_toNat_lt.1 hd
  have hmax := config.maxAncestorDepth.toNat_lt
  have hdepth : (parent.depth + 1).toNat = parent.depth.toNat + 1 := by
    rw [UInt64.toNat_add, UInt64.toNat_one, Nat.mod_eq_of_lt (by omega)]
  refine ⟨fun h => ?_, fun p h => ?_, ?_, ?_⟩
  · cases h
  · cases h
    refine ⟨rfl, u, hu, ?_⟩
    rw [Txn.depth_of_origin ho]
    exact hdepth
  · change (parent.depth + 1).toNat ≤ _
    omega
  · simp [Txn.child]

/-- An active record of a sound ledger may be finished. -/
theorem Sound.finish (h : l.Sound max) (ht : l.find? t.id = some t) (ha : t.state = .active)
    (o : Outcome) : (l.replace (t.finish o)).Sound max :=
  h.replace ht (.finish ha o) (by cases o <;> simp [Txn.finish])

end Ledger

/-! ## The operations -/

namespace Lifecycle

open Services

theorem beginRoot_evolves (isolation : Isolation) : Act.Keeps Evolves (beginRoot isolation) := by
  intro s
  rcases beginRoot_cases isolation s with ⟨e, s', he, hs⟩ | ⟨ts, s', _, hf, he, hs, _⟩
  · rw [he]
    exact hs.evolves (.refl _)
  · rw [he]
    exact hs.evolves (Ledger.grows_insert hf)

theorem beginRoot_sound (isolation : Isolation) {s : Services} {max : Nat}
    (h : s.ledger.Sound max) : ((beginRoot isolation).exec s).2.ledger.Sound max := by
  rcases beginRoot_cases isolation s with ⟨e, s', he, hs⟩ | ⟨ts, s', _, hf, he, hs, _⟩
  · rw [he]
    exact h.of_txns hs.txns
  · rw [he]
    exact (h.insert hf (Ledger.placed_root ts isolation)).of_txns hs.txns

/-- The answer is the new record. -/
theorem beginRoot_found {isolation : Isolation} {s s' : Services} {t : Txn}
    (h : (beginRoot isolation).exec s = (.ok t, s')) : s'.ledger.find? t.id = some t := by
  rcases beginRoot_cases isolation s with ⟨e, s₁, he, _⟩ | ⟨ts, s₁, _, _, he, hs, _⟩
  · rw [he] at h
    cases h
  · rw [he] at h
    cases h
    rw [hs.find?, Ledger.find?_insert, if_pos rfl]

theorem beginChild_evolves (config : Config) (parent : Txn) (isolation : Option Isolation)
    (additive : Bool) (table : Option Table) :
    Act.Keeps Evolves (beginChild config parent isolation additive table) := by
  intro s
  rcases beginChild_cases config parent isolation additive table s with
    ⟨e, s', he, hs⟩ | ⟨ts, d, s', _, hf, _, _, he, hs, _⟩
  · rw [he]
    exact hs.evolves (.refl _)
  · rw [he]
    exact hs.evolves (Ledger.grows_insert hf)

theorem beginChild_sound (config : Config) {parent u : Txn} (isolation : Option Isolation)
    (additive : Bool) (table : Option Table) {s : Services}
    (h : s.ledger.Sound config.maxAncestorDepth.toNat) (hu : s.ledger.find? parent.id = some u)
    (ho : u.origin = parent.origin) :
    ((beginChild config parent isolation additive table).exec s).2.ledger.Sound
      config.maxAncestorDepth.toNat := by
  rcases beginChild_cases config parent isolation additive table s with
    ⟨e, s', he, hs⟩ | ⟨ts, d, s', _, hf, _, hd, he, hs, _⟩
  · rw [he]
    exact h.of_txns hs.txns
  · rw [he]
    exact (h.insert hf (Ledger.placed_child ts _ _ _ hu ho hd)).of_txns hs.txns

/-- The answer is the new record. -/
theorem beginChild_found {config : Config} {parent : Txn} {isolation : Option Isolation}
    {additive : Bool} {table : Option Table} {s s' : Services} {t : Txn}
    (h : (beginChild config parent isolation additive table).exec s = (.ok t, s')) :
    s'.ledger.find? t.id = some t := by
  rcases beginChild_cases config parent isolation additive table s with
    ⟨e, s₁, he, _⟩ | ⟨ts, d, s₁, _, _, _, _, he, hs, _⟩
  · rw [he] at h
    cases h
  · rw [he] at h
    cases h
    rw [hs.find?, Ledger.find?_insert, if_pos rfl]

theorem commit_evolves (config : Config) (t : Txn) : Act.Keeps Evolves (commit config t) := by
  intro s
  rcases commit_cases config t s with ⟨e, s', he, hs⟩ | ⟨ts, g, u, s', _, _, hu, ha, he, hs, _⟩
  · rw [he]
    exact hs.evolves (.refl _)
  · rw [he]
    rw [← Ledger.id_of_find? hu] at hu
    exact hs.evolves (Ledger.grows_replace hu (.finish ha _))

theorem commit_sound (config : Config) (t : Txn) {s : Services} {max : Nat}
    (h : s.ledger.Sound max) : ((commit config t).exec s).2.ledger.Sound max := by
  rcases commit_cases config t s with ⟨e, s', he, hs⟩ | ⟨ts, g, u, s', _, _, hu, ha, he, hs, _⟩
  · rw [he]
    exact h.of_txns hs.txns
  · rw [he]
    rw [← Ledger.id_of_find? hu] at hu
    exact (h.finish hu ha _).of_txns hs.txns

theorem rollback_evolves (t : Txn) : Act.Keeps Evolves (rollback t) := by
  intro s
  rcases rollback_cases t s with
    ⟨e, s', he, hs⟩ | ⟨s', he, hs, _⟩ | ⟨u, s', _, hu, ha, he, hs, _⟩
  · rw [he]
    exact hs.evolves
  · rw [he]
    exact hs.evolves
  · rw [he]
    rw [← Ledger.id_of_find? hu] at hu
    exact hs.evolves (Ledger.grows_replace hu (.finish ha _))

theorem rollback_sound (t : Txn) {s : Services} {max : Nat} (h : s.ledger.Sound max) :
    ((rollback t).exec s).2.ledger.Sound max := by
  rcases rollback_cases t s with
    ⟨e, s', he, hs⟩ | ⟨s', he, hs, _⟩ | ⟨u, s', _, hu, ha, he, hs, _⟩
  · rw [he]
    exact hs.regrants.sound h
  · rw [he]
    exact hs.regrants.sound h
  · rw [he]
    rw [← Ledger.id_of_find? hu] at hu
    exact (h.finish hu ha _).of_txns hs.txns

end Lifecycle

end NestedTxn
