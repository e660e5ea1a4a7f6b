import NestedTxn.Proofs.Lifecycle.Failures
import NestedTxn.Proofs.Lifecycle.Timestamps

/-!
# What a commit records

* `Ledger.outermost`: the commit timestamp of the outermost ancestor, from the records alone. It
  depends on the ancestors only (`outermost_congr`), and is what a walk finds
  (`globalTimestamp_ok`).
* `Lifecycle.commit_committed`: a commit that succeeds records the timestamp that it drew, and that
  of the outermost ancestor.
* `Services.Serves`: the ledger answers, and the clock has readings. Then no commit and no rollback
  meets an outage (`commit_serves`, `rollback_serves`).
-/

namespace NestedTxn

namespace Ledger

/-- The commit timestamp of the outermost transaction from an id upwards, or `none` if one of them
is not committed. At most as many as the first argument are looked up. -/
def outermost (l : Ledger) : Nat → Option TxnId → Option Timestamp
  | _, none => none
  | 0, some _ => none
  | budget + 1, some id =>
    match l.find? id with
    | none => none
    | some p =>
      if p.state ≠ .committed then none
      else if p.standsAlone then p.commitTimestamp
      else l.outermost budget p.parent

/-- Only the transaction itself and its ancestors matter. -/
theorem outermost_congr {l l' : Ledger} {budget : Nat} {next : Option TxnId}
    (h : ∀ id ∈ next, ∀ a, a = id ∨ l.Ancestor id a → l'.find? a = l.find? a) :
    l'.outermost budget next = l.outermost budget next := by
  induction budget generalizing next with
  | zero => cases next <;> rfl
  | succ budget ih =>
    cases next with
    | none => rfl
    | some id =>
      rw [outermost, outermost, h id rfl id (.inl rfl)]
      cases hp : l.find? id with
      | none => rfl
      | some p =>
        have hup : l'.outermost budget p.parent = l.outermost budget p.parent := by
          refine ih fun q hq a ha => h id rfl a (.inr ?_)
          exact (ancestor_iff_parent ⟨p, hp, hq⟩).2 ha
        dsimp only
        rw [hup]

end Ledger

namespace Services

open TxnError

/-- The ledger answers all calls to come, and the next `n` readings of the clock are there. -/
structure Serves (n : Nat) (s : Services) : Prop where
  up : s.ledger.switch.Up
  readings : ∀ i < n, ∃ ts, s.clock.reading (s.clock.taken + i) = some ts

variable {s s' : Services} {n : Nat} {id : TxnId}

theorem Serves.mono {m : Nat} (h : s.Serves n) (hm : m ≤ n) : s.Serves m :=
  ⟨h.up, fun i hi => h.readings i (Nat.lt_of_lt_of_le hi hm)⟩

theorem Serves.reported (h : s.Serves n) (e : Event) : (s.reported e).Serves n := ⟨h.up, h.readings⟩

/-- After a call that took at most one reading, all but one are left. -/
theorem Serves.after (h : s.Serves (n + 1)) (hs : s.Spares s')
    (hc : s'.clock = s.clock ∨ s'.clock = s.ticked.clock) : s'.Serves n where
  up := hs.up h.up
  readings i hi := by
    rcases hc with hc | hc <;> rw [hc]
    · exact h.readings i (Nat.lt_succ_of_lt hi)
    · obtain ⟨ts, hts⟩ := h.readings (i + 1) (Nat.succ_lt_succ hi)
      have hlater : s.ticked.clock.taken + i = s.clock.taken + (i + 1) := by
        rw [show s.ticked.clock.taken = s.clock.taken + 1 from rfl]
        omega
      exact ⟨ts, by rw [hlater]; exact hts⟩

/-- While the ledger answers, a look-up meets no outage. -/
theorem fetch_serves (hup : s.ledger.switch.Up) (id : TxnId) :
    Act.FailsWith (fun e => ¬ e.IsOutage) (onLedger (Ledger.fetch id)) s := by
  intro e s' he
  rw [exec_onLedger, Ledger.exec_fetch,
    if_pos (show s.nextLedger.switch.on = true from hup.on_advance)] at he
  cases he

theorem update_serves (hup : s.ledger.switch.Up) (id : TxnId) (change : Txn → Txn) :
    Act.FailsWith (fun e => ¬ e.IsOutage) (onLedger (Ledger.update id change)) s := by
  intro e s' he
  rw [exec_onLedger, Ledger.exec_update,
    if_pos (show s.nextLedger.switch.on = true from hup.on_advance)] at he
  cases hf : s.nextLedger.find? id with
  | none =>
    rw [hf] at he
    cases he
    rintro ⟨o, ho⟩
    cases ho
  | some u =>
    rw [hf] at he
    dsimp only at he
    split at he
    · cases he
      rintro ⟨o, ho⟩
      cases ho
    · cases he

end Services

namespace Lifecycle

open Services TxnError

variable {s s' : Services} {config : Config} {t : Txn} {ts : Timestamp}

/-- What a walk finds. -/
theorem globalTimestamp_ok {budget : Nat} {seen : List TxnId} {next : Option TxnId}
    {g : Option Timestamp} (h : (globalTimestamp budget seen next).exec s = (.ok g, s')) :
    g = s.ledger.outermost budget next := by
  induction budget generalizing s seen next with
  | zero =>
    cases next with
    | none =>
      cases h
      rfl
    | some id => cases h
  | succ budget ih =>
    cases next with
    | none =>
      cases h
      rfl
    | some id =>
      rw [globalTimestamp] at h
      split at h
      · cases h
      obtain ⟨p, s₁, hp, h⟩ := Act.exec_bind_eq_ok h
      obtain ⟨hp, htxns⟩ := recorded_ok hp
      rw [Ledger.outermost, hp]
      dsimp only
      split at h
      · next hc =>
        cases h
        rw [if_pos hc]
      · next hc =>
        rw [if_neg hc]
        split at h
        · next ha =>
          cases h
          rw [if_pos ha]
        · next ha =>
          rw [if_neg ha, ih h]
          exact Ledger.outermost_congr fun _ _ a _ => Ledger.find?_congr htxns a

/-- The timestamp that a commit of `t` at `ts` records beside its own. -/
def globalOf (config : Config) (l : Ledger) (t : Txn) (ts : Timestamp) : Option Timestamp :=
  if t.standsAlone then some ts else l.outermost config.maxAncestorDepth.toNat t.parent

/-- A commit that succeeds records the timestamp that it drew, and that of the outermost
ancestor. -/
theorem commit_committed (h : (commit config t).exec s = (.ok ts, s')) :
    ∃ u, s.ledger.find? t.id = some u ∧ u.state = .active ∧ s.Drawn s' ts ∧
      s.Records (s.ledger.replace (u.finish (.committed ts (globalOf config s.ledger t ts)))) s' ∧
      s'.clock = s.ticked.clock := by
  rw [commit_eq] at h
  obtain ⟨_, s₀, hd, h⟩ := Act.exec_bind_eq_ok h
  rw [exec_demandActive] at hd
  split at hd <;> cases hd
  obtain ⟨ts', s₁, ht, h⟩ := Act.exec_bind_eq_ok h
  obtain ⟨hr, rfl⟩ := tick_ok ht
  obtain ⟨g, s₂, hg, h⟩ := Act.exec_bind_eq_ok h
  obtain ⟨_, s₃, hf, h⟩ := Act.exec_bind_eq_ok h
  have hlooks := commitGlobal_looks config t ts' s.ticked
  rw [hg] at hlooks
  have hglobal : g = globalOf config s.ledger t ts' := by
    unfold commitGlobal at hg
    unfold globalOf
    split at hg
    · next ha =>
      cases hg
      rw [if_pos ha]
    · next ha =>
      rw [if_neg ha]
      exact globalTimestamp_ok (s := s.ticked) hg
  rw [Act.exec_discard] at hf
  rcases exec_update_cases t.id (·.finish (.committed ts' g)) s₂ with ⟨e, he, _⟩ | ⟨u, hu, ha, he⟩
  · rw [Ledger.finish, he] at hf
    cases hf
  · rw [Ledger.finish, he] at hf
    cases hf
    cases h
    have hs := (hlooks.toRecords.after_tick.replace
      (records_replace s₂ (u.finish (.committed ts g)))).counted .committed
    refine ⟨u, (hlooks.find? t.id).symm.trans hu, ha, ?_, hglobal ▸ hs.reported _, hlooks.clock⟩
    refine ⟨s.clock.taken, Nat.le_refl _, ?_, hr⟩
    change s.clock.taken < s₂.clock.taken
    rw [hlooks.clock]
    exact Nat.lt_succ_self _

/-! ## No outage -/

theorem recorded_serves (hup : s.ledger.switch.Up) (id : TxnId) :
    Act.FailsWith (fun e => ¬ e.IsOutage) (recorded id) s := by
  refine .bind (fetch_serves hup id) fun r s' _ => ?_
  cases r with
  | some t => exact .pure _
  | none => exact .throw (by rintro ⟨o, ho⟩; cases ho)

theorem malformedAncestry_not_isOutage (fault : AncestryFault) :
    ¬ (TxnError.malformedAncestry fault).IsOutage := by
  rintro ⟨o, ho⟩
  cases ho

theorem globalTimestamp_serves (hup : s.ledger.switch.Up) (budget : Nat) (seen : List TxnId)
    (next : Option TxnId) :
    Act.FailsWith (fun e => ¬ e.IsOutage) (globalTimestamp budget seen next) s := by
  induction budget generalizing s seen next with
  | zero =>
    cases next with
    | none => exact .pure _
    | some id => exact .throw (malformedAncestry_not_isOutage _)
  | succ budget ih =>
    cases next with
    | none => exact .pure _
    | some id =>
      rw [globalTimestamp]
      split
      · exact .throw (malformedAncestry_not_isOutage _)
      · refine .bind (recorded_serves hup id) fun p s' hp => ?_
        have hlooks := recorded_looks id s
        rw [hp] at hlooks
        split
        · exact .pure _
        · split
          · exact .pure _
          · exact ih (hlooks.up hup) _ _

/-- While the services serve, a commit meets no outage. -/
theorem commit_serves (h : s.Serves 1) :
    Act.FailsWith (fun e => ¬ e.IsOutage) (commit config t) s := by
  obtain ⟨ts, hr⟩ := h.readings 0 Nat.one_pos
  rw [commit_eq]
  refine .bind ?_ fun _ s₀ hd => ?_
  · intro e s₀ hd
    rw [exec_demandActive] at hd
    split at hd <;> cases hd
    rintro ⟨o, ho⟩
    cases ho
  rw [exec_demandActive] at hd
  split at hd <;> cases hd
  refine .bind (.of_ok (exec_tick_some hr)) fun ts' s₁ ht => ?_
  obtain ⟨_, rfl⟩ := tick_ok ht
  refine .bind ?_ fun g s₂ hg => ?_
  · unfold commitGlobal
    split
    · exact .pure _
    · exact globalTimestamp_serves (s := s.ticked) h.up _ _ _
  · have hlooks := commitGlobal_looks config t ts' s.ticked
    rw [hg] at hlooks
    refine .bind ((update_serves (hlooks.up h.up) _ _).map _) fun _ _ _ => ?_
    exact .bind (.of_ok (exec_count _ _)) fun _ _ _ =>
      .bind (.of_ok (exec_report _ _)) fun _ _ _ => .pure _

/-- While the ledger answers, a rollback meets no outage. -/
theorem rollback_serves (hup : s.ledger.switch.Up) :
    Act.FailsWith (fun e => ¬ e.IsOutage) (rollback t) s := by
  unfold rollback
  split
  · exact .pure _
  · exact .throw (by rintro ⟨o, ho⟩; cases ho)
  · refine .bind (.of_ok (Act.exec_attempt _ s)) fun r s' hr => ?_
    rw [Act.exec_attempt] at hr
    cases hr
    split
    · exact .bind (.of_ok (exec_count _ _)) fun _ _ _ => .of_ok (exec_report _ _)
    · exact .pure _
    · next e _ he => exact .throw (update_serves hup _ _ e _ (Prod.ext he rfl))

end Lifecycle

end NestedTxn
