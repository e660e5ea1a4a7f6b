import NestedTxn.Proofs.Ledger.Ancestry
import NestedTxn.Proofs.Lifecycle.Soundness

/-!
# Why the operations of the lifecycle fail

In a sound ledger a walk up the ancestors of a record finds all of them, and there are no more than
it looks up. So an operation on recorded transactions fails for one of few reasons:

* `TxnError.IsOutage`: a service does not answer. A walk fails for no other reason
  (`globalTimestamp_fails`, `uncovered_fails`).
* `TxnError.EndedAlready`: the transaction, or one above it, was ended before. `commit_fails`,
  `rollback_fails` and `elevate_fails`, `elevateUnder_fails` know nothing else.
* `beginRoot_fails`, `beginChild_fails`: while the clock repeats no reading (`Services.NextUnused`)
  a new transaction finds its id free.
-/

namespace NestedTxn

namespace TxnError

/-- A service does not answer. -/
def IsOutage (e : TxnError) : Prop := ∃ o, e = .unavailable o

/-- A service does not answer, or a transaction that had to be active has ended. -/
def EndedAlready (e : TxnError) : Prop := e.IsOutage ∨ ∃ id state, e = .alreadyTerminal id state

theorem isOutage_unavailable (o : Outage) : (TxnError.unavailable o).IsOutage := ⟨o, rfl⟩

theorem IsOutage.endedAlready {e : TxnError} (h : e.IsOutage) : e.EndedAlready := .inl h

end TxnError

namespace Services

open TxnError

variable {s : Services} {id : TxnId} {t u : Txn}

/-- The next reading of the clock, if there is one, is not the id of a record. -/
def NextUnused (s : Services) : Prop :=
  ∀ ts, s.clock.reading s.clock.taken = some ts → s.ledger.find? ts = none

theorem tick_fails (s : Services) : Act.FailsWith IsOutage tick s := by
  cases hr : s.clock.reading s.clock.taken with
  | none => exact .of_error (exec_tick_none hr) (isOutage_unavailable .clock)
  | some ts => exact .of_ok (exec_tick_some hr)

/-- What the clock answers is its next reading. -/
theorem tick_ok {ts : Timestamp} {s' : Services} (h : tick.exec s = (.ok ts, s')) :
    s.clock.reading s.clock.taken = some ts ∧ s' = s.ticked := by
  cases hr : s.clock.reading s.clock.taken with
  | none =>
    rw [exec_tick_none hr] at h
    cases h
  | some r =>
    rw [exec_tick_some hr] at h
    cases h
    exact ⟨rfl, rfl⟩

theorem create_fails (hf : s.ledger.find? t.id = none) :
    Act.FailsWith IsOutage (onLedger (Ledger.create t)) s := by
  intro e s' he
  rw [exec_onLedger, Ledger.exec_create] at he
  by_cases hon : s.nextLedger.switch.on = true
  · simp [hon, hf] at he
  · simp only [hon, Bool.false_eq_true, if_false] at he
    cases he
    exact isOutage_unavailable .ledger

theorem update_fails (hu : s.ledger.find? id = some u) (change : Txn → Txn) :
    Act.FailsWith (fun e => e.IsOutage ∨ u.state ≠ .active ∧ e = .alreadyTerminal id u.state)
      (onLedger (Ledger.update id change)) s := by
  intro e s' he
  rw [exec_onLedger, Ledger.exec_update] at he
  by_cases hon : s.nextLedger.switch.on = true
  · cases ht : u.state.isTerminal with
    | false => simp [hon, hu, ht] at he
    | true =>
      simp only [hon, hu, ht, nextLedger_find?, if_true] at he
      cases he
      refine .inr ⟨fun ha => ?_, rfl⟩
      rw [ha] at ht
      cases ht
  · simp only [hon, Bool.false_eq_true, if_false] at he
    cases he
    exact .inl (isOutage_unavailable .ledger)

end Services

namespace Lifecycle

open Services TxnError

variable {s : Services} {config : Config} {id : TxnId} {t u : Txn} {c : List Txn} {table : Table}

/-! ## Walks -/

theorem recorded_fails (ht : s.ledger.find? id = some t) :
    Act.FailsWith IsOutage (recorded id) s := by
  intro e s' he
  rcases exec_fetch_cases id s with hx | hx
  · rw [recorded, Act.exec_bind_error hx] at he
    cases he
    exact isOutage_unavailable .ledger
  · rw [recorded, Act.exec_bind_ok hx, ht] at he
    cases he

/-- What is looked up is the record, and nothing changed. -/
theorem recorded_ok {s' : Services} (h : (recorded id).exec s = (.ok t, s')) :
    s.ledger.find? id = some t ∧ s'.ledger.txns = s.ledger.txns := by
  rcases exec_fetch_cases id s with hx | hx
  · rw [recorded, Act.exec_bind_error hx] at h
    cases h
  · rw [recorded, Act.exec_bind_ok hx] at h
    cases hf : s.ledger.find? id with
    | none =>
      rw [hf] at h
      cases h
    | some u =>
      rw [hf] at h
      cases h
      exact ⟨rfl, rfl⟩

/-- A walk that may look up as many transactions as lie ahead comes to its end. -/
theorem globalTimestamp_fails {budget : Nat} {seen : List TxnId} {next : Option TxnId}
    (hc : s.ledger.Above next c) (hlen : c.length ≤ budget) (hseen : ∀ x ∈ seen, x ∉ Ledger.ids c) :
    Act.FailsWith IsOutage (globalTimestamp budget seen next) s := by
  induction budget generalizing s seen next c with
  | zero =>
    cases next with
    | none => exact .pure _
    | some id =>
      obtain ⟨t, rest, rfl, _⟩ := Ledger.Chain.eq_cons hc
      simp at hlen
  | succ budget ih =>
    cases next with
    | none => exact .pure _
    | some id =>
      obtain ⟨t, rest, rfl, ht⟩ := Ledger.Chain.eq_cons hc
      obtain ⟨hid, hrest⟩ := Ledger.Chain.unseen hc hseen
      rw [globalTimestamp, if_neg hid]
      refine .bind (recorded_fails ht) fun p s' hp => ?_
      obtain ⟨hp, htxns⟩ := recorded_ok hp
      rw [ht] at hp
      cases hp
      split
      · exact .pure _
      · split
        · exact .pure _
        · exact ih ((Ledger.Chain.above hc).of_txns htxns) (by simpa using hlen) hrest

/-- A walk that may look up as many transactions as lie ahead comes to its end. -/
theorem uncovered_fails {budget : Nat} {seen : List TxnId} {next : Option TxnId}
    (hc : s.ledger.Above next c) (hlen : c.length ≤ budget) (hseen : ∀ x ∈ seen, x ∉ Ledger.ids c) :
    Act.FailsWith IsOutage (uncovered table budget seen next) s := by
  induction budget generalizing s seen next c with
  | zero =>
    cases next with
    | none => exact .pure _
    | some id =>
      obtain ⟨t, rest, rfl, _⟩ := Ledger.Chain.eq_cons hc
      simp at hlen
  | succ budget ih =>
    cases next with
    | none => exact .pure _
    | some id =>
      obtain ⟨t, rest, rfl, ht⟩ := Ledger.Chain.eq_cons hc
      obtain ⟨hid, hrest⟩ := Ledger.Chain.unseen hc hseen
      rw [uncovered, if_neg hid]
      refine .bind (recorded_fails ht) fun p s' hp => ?_
      obtain ⟨hp, htxns⟩ := recorded_ok hp
      rw [ht] at hp
      cases hp
      split
      · exact .pure _
      · have hwalk := ih ((Ledger.Chain.above hc).of_txns htxns) (by simpa using hlen) hrest
        exact hwalk.bind fun _ _ _ => .pure _

/-- What a walk for a table finds: the nodes ahead, up to the first that covers the table. -/
theorem uncovered_ok {budget : Nat} {seen : List TxnId} {next : Option TxnId} {pending : List Txn}
    {s' : Services} (hc : s.ledger.Above next c)
    (h : (uncovered table budget seen next).exec s = (.ok pending, s')) :
    pending = c.takeWhile fun a => !a.writableFor table := by
  induction budget generalizing s seen next c pending with
  | zero =>
    cases next with
    | none =>
      obtain rfl : c = [] := hc
      cases h
      rfl
    | some id => cases h
  | succ budget ih =>
    cases next with
    | none =>
      obtain rfl : c = [] := hc
      cases h
      rfl
    | some id =>
      obtain ⟨t, rest, rfl, ht⟩ := Ledger.Chain.eq_cons hc
      rw [uncovered] at h
      split at h
      · cases h
      obtain ⟨p, s₁, hp, h⟩ := Act.exec_bind_eq_ok h
      obtain ⟨hp, htxns⟩ := recorded_ok hp
      rw [ht] at hp
      cases hp
      split at h
      · next hw =>
        cases h
        simp [hw]
      · next hw =>
        obtain ⟨above, s₂, ha, h⟩ := Act.exec_bind_eq_ok h
        cases h
        rw [ih ((Ledger.Chain.above hc).of_txns htxns) ha,
          List.takeWhile_cons_of_pos (by simpa using hw)]

/-! ## New transactions -/

theorem demandActive_fails (t : Txn) (s : Services) :
    Act.FailsWith (fun e => t.state ≠ .active ∧ e = .alreadyTerminal t.id t.state)
      (demandActive t) s := by
  intro e s' he
  rw [exec_demandActive] at he
  split at he
  · next ht =>
    cases he
    refine ⟨fun ha => ?_, rfl⟩
    rw [ha] at ht
    cases ht
  · cases he

theorem demandActive_same {s' : Services} {x : Unit} (h : (demandActive t).exec s = (.ok x, s')) :
    s' = s := by
  rw [exec_demandActive] at h
  split at h <;> cases h
  rfl

/-- While the clock repeats no reading, a root begins unless a service does not answer. -/
theorem beginRoot_fails (hn : s.NextUnused) (isolation : Isolation) :
    Act.FailsWith IsOutage (beginRoot isolation) s := by
  refine .bind (tick_fails s) fun ts s' ht => ?_
  obtain ⟨hr, rfl⟩ := tick_ok ht
  refine .bind (create_fails (hn _ hr)) fun _ _ _ => ?_
  exact .bind (.of_ok (exec_count _ _)) fun _ _ _ =>
    .bind (.of_ok (exec_report _ _)) fun _ _ _ => .pure _

/-- While the clock repeats no reading, a child of an active parent begins unless a service does not
answer or the parent is too deep. -/
theorem beginChild_fails {parent : Txn} (hn : s.NextUnused) (ha : parent.state = .active)
    (isolation : Option Isolation) (additive : Bool) (table : Option Table) :
    Act.FailsWith
      (fun e => e.IsOutage ∨ e = .nestingTooDeep parent.id config.maxAncestorDepth)
      (beginChild config parent isolation additive table) s := by
  refine .bind ((demandActive_fails parent s).mono fun e he => absurd ha he.1) fun _ s' hx => ?_
  obtain rfl := demandActive_same hx
  split
  · exact .bind (.throw (.inr rfl)) fun _ _ hx => by cases hx
  · refine .bind ((tick_fails s').mono fun _ => .inl) fun ts s₁ ht => ?_
    obtain ⟨hr, rfl⟩ := tick_ok ht
    have hnew : s'.ticked.ledger.find? _ = none := hn _ hr
    refine .bind ((create_fails hnew).mono fun _ he => .inl he) fun _ _ _ => ?_
    exact .bind (.of_ok (exec_count _ _)) fun _ _ _ =>
      .bind (.of_ok (exec_report _ _)) fun _ _ _ => .pure _

/-! ## Ends -/

section

variable (hs : s.ledger.Sound config.maxAncestorDepth.toNat) (hu : s.ledger.find? t.id = some u)
  (ho : u.origin = t.origin)
include hs hu ho

/-- A commit fails because a service does not answer, or because the transaction has ended. -/
theorem commit_fails : Act.FailsWith
    (fun e => e.IsOutage ∨ ∃ state, (t.state = state ∨ u.state = state) ∧ state ≠ .active ∧
      e = .alreadyTerminal t.id state) (commit config t) s := by
  rw [commit_eq]
  refine .bind ((demandActive_fails t s).mono fun e he => .inr ⟨_, .inl rfl, he⟩) fun _ s₁ h₁ => ?_
  obtain rfl := demandActive_same h₁
  refine .bind ((tick_fails s₁).mono fun _ => .inl) fun ts s₂ h₂ => ?_
  have htxns₂ : s₂.ledger.txns = s₁.ledger.txns := by
    obtain ⟨-, rfl⟩ := tick_ok h₂
    rfl
  -- the ancestors of the value are those of the record
  obtain ⟨c, hc⟩ := hs.chain hu
  have habove := hc.above
  rw [Txn.parent_of_origin ho] at habove
  have hwalk : Act.FailsWith IsOutage (commitGlobal config t ts) s₂ := by
    unfold commitGlobal
    split
    · exact .pure _
    · exact globalTimestamp_fails (habove.of_txns htxns₂) (hc.length_le hs) (by simp)
  refine .bind (hwalk.mono fun _ => .inl) fun globalTs s₃ h₃ => ?_
  have hlook := commitGlobal_looks config t ts s₂
  rw [h₃] at hlook
  have hu₃ : s₃.ledger.find? t.id = some u := by
    rw [hlook.find?, Ledger.find?_congr htxns₂, hu]
  refine .bind (.map ((update_fails hu₃ _).mono fun e he => ?_) _) fun _ _ _ =>
    .bind (.of_ok (exec_count _ _)) fun _ _ _ => .bind (.of_ok (exec_report _ _)) fun _ _ _ =>
    .pure _
  exact he.imp_right fun he => ⟨u.state, .inr rfl, he⟩

end

/-- A rollback fails because the ledger does not answer, or because the transaction is
committed. -/
theorem rollback_fails (hu : s.ledger.find? t.id = some u) : Act.FailsWith
    (fun e => e.IsOutage ∨ (t.state = .committed ∨ u.state = .committed) ∧
      e = .alreadyTerminal t.id .committed) (rollback t) s := by
  unfold rollback
  cases ht : t.state with
  | rolledBack => exact .pure _
  | committed => exact .throw (.inr ⟨.inl rfl, rfl⟩)
  | active =>
    have hend := update_fails hu (·.finish .rolledBack)
    refine .bind (.of_ok (Act.exec_attempt _ _)) fun r s₁ hr => ?_
    rw [Act.exec_attempt] at hr
    cases hr
    split
    · exact .bind (.of_ok (exec_count _ _)) fun _ _ _ => .of_ok (exec_report _ _)
    · exact .pure _
    · next e hne he =>
      refine .throw ((hend e _ (Prod.ext he rfl)).imp_right ?_)
      rintro ⟨hua, rfl⟩
      cases hus : u.state with
      | active => exact absurd hus hua
      | committed => exact ⟨.inr rfl, rfl⟩
      | rolledBack =>
        rw [hus] at hne
        exact absurd rfl (hne t.id)

/-! ## Elevation -/

theorem grant_fails (hu : s.ledger.find? t.id = some u) :
    Act.FailsWith EndedAlready (grant t table) s := by
  have hend : Act.FailsWith EndedAlready (onLedger (Ledger.grant t.id table)) s := by
    refine (update_fails hu (·.grant table)).mono fun e he => ?_
    rcases he with he | ⟨_, rfl⟩
    · exact he.endedAlready
    · exact .inr ⟨_, _, rfl⟩
  refine .bind hend fun _ s₁ _ => ?_
  split
  · exact .bind (.of_ok (exec_count _ _)) fun _ _ _ =>
      .bind (.of_ok (exec_report _ _)) fun _ _ _ => .pure _
  · exact .bind (.of_ok (exec_report _ _)) fun _ _ _ => .pure _

/-- Grants to recorded transactions, one after the other. -/
theorem grants_fail {l : List Txn} (hl : ∀ a ∈ l, ∃ u, s.ledger.find? a.id = some u) :
    Act.FailsWith EndedAlready (l.forM fun a => discard (grant a table)) s := by
  induction l generalizing s with
  | nil => exact .pure _
  | cons a l ih =>
    obtain ⟨u, hu⟩ := hl a (by simp)
    refine .bind ((grant_fails hu).map _) fun _ s₁ h₁ => ih fun b hb => ?_
    obtain ⟨v, hv⟩ := hl b (by simp [hb])
    have hgrows := (grant_regrants a table s).grows
    obtain ⟨_, hg, -⟩ := Act.exec_map_eq_ok h₁
    rw [hg] at hgrows
    obtain ⟨w, hw, _⟩ := hgrows b.id v hv
    exact ⟨w, hw⟩

section

variable (hs : s.ledger.Sound config.maxAncestorDepth.toNat) (hu : s.ledger.find? t.id = some u)
  (ho : u.origin = t.origin)
include hs hu ho

/-- An elevation fails because the ledger does not answer, or because the transaction or one of its
ancestors has ended. -/
theorem elevate_fails : Act.FailsWith EndedAlready (elevate config t table) s := by
  unfold elevate
  split
  · exact .pure _
  refine .bind ((demandActive_fails t s).mono fun e he => .inr ⟨_, _, he.2⟩) fun _ s₁ h₁ => ?_
  obtain rfl := demandActive_same h₁
  obtain ⟨c, hc⟩ := hs.chain hu
  have habove := hc.above
  rw [Txn.parent_of_origin ho] at habove
  have hwalk : Act.FailsWith IsOutage
      (uncovered table config.maxAncestorDepth.toNat [] t.parent) s₁ :=
    uncovered_fails habove (hc.length_le hs) (List.forall_mem_nil _)
  refine .bind (hwalk.mono fun _ => IsOutage.endedAlready) fun pending s₂ h₂ => ?_
  -- what the walk found are records
  have hpending : ∀ a ∈ pending, ∃ v, s₂.ledger.find? a.id = some v := by
    intro a ha
    have hlook := uncovered_looks table config.maxAncestorDepth.toNat [] t.parent s₁
    rw [h₂] at hlook
    rw [uncovered_ok habove h₂] at ha
    have hmem := (List.takeWhile_prefix _).subset ha
    exact ⟨a, (hlook.find? a.id).trans (hc.find?_of_mem (List.mem_cons_of_mem _ hmem))⟩
  refine .bind (grants_fail fun a ha => hpending a (by simpa using ha)) fun _ s₃ h₃ => ?_
  have hgrows : s₁.ledger.Grows s₃.ledger := by
    have hlook := uncovered_looks table config.maxAncestorDepth.toNat [] t.parent s₁
    have hgrants := grants_regrants table pending.reverse s₂
    rw [h₂] at hlook
    rw [h₃] at hgrants
    exact hlook.regrants.grows.trans hgrants.grows
  obtain ⟨v, hv, _⟩ := hgrows t.id u hu
  exact grant_fails hv

/-- An elevation below an elevated parent fails for the same reasons. -/
theorem elevateUnder_fails (parent : Option Txn) :
    Act.FailsWith EndedAlready (elevateUnder config t table parent) s := by
  unfold elevateUnder
  split
  · exact .pure _
  · split
    · refine .bind ((demandActive_fails t s).mono fun e he => .inr ⟨_, _, he.2⟩) fun _ s₁ h₁ => ?_
      obtain rfl := demandActive_same h₁
      exact grant_fails hu
    · exact elevate_fails hs hu ho

end

end Lifecycle

end NestedTxn
