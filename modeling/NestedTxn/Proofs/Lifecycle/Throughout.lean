import NestedTxn.Proofs.Lifecycle.Failures

/-!
# After every single call of the ledger

An operation makes one call of the ledger after the other, and an outage may end it after any of
them. `Services.Throughout P a s` says of an operation `a` on the services `s` that `P` holds of the
ledger after each call that it makes, whatever comes of it. There is one rule for each call of the
ledger and each way to build an operation; `Throughout.of_create` and `of_update` say what a call
can leave behind.

`P` is about the records: looks do not break it (`globalTimestamp_throughout` and so on).
-/

namespace NestedTxn

namespace Services

/-- `P` holds of the ledger after every single call of it that an operation makes. -/
inductive Throughout (P : Ledger → Prop) : {α : Type} → Act Services TxnError α → Services → Prop
  | fetch {id : TxnId} {s : Services} :
      P ((Ledger.fetch id).exec s.nextLedger).2 → Throughout P (onLedger (Ledger.fetch id)) s
  | create {t : Txn} {s : Services} :
      P ((Ledger.create t).exec s.nextLedger).2 → Throughout P (onLedger (Ledger.create t)) s
  | update {id : TxnId} {change : Txn → Txn} {s : Services} :
      P ((Ledger.update id change).exec s.nextLedger).2 →
        Throughout P (onLedger (Ledger.update id change)) s
  | tick {s : Services} : Throughout P tick s
  | count {c : Counter} {s : Services} : Throughout P (count c) s
  | report {e : Event} {s : Services} : Throughout P (report e) s
  | pure {α : Type} {x : α} {s : Services} : Throughout P (Pure.pure x) s
  | throw {α : Type} {e : TxnError} {s : Services} :
      Throughout P (MonadExcept.throw e : Act Services TxnError α) s
  | bind {α β : Type} {a : Act Services TxnError α} {f : α → Act Services TxnError β}
      {s : Services} : Throughout P a s →
        (∀ x t, a.exec s = (.ok x, t) → Throughout P (f x) t) → Throughout P (a >>= f) s
  | attempt {α : Type} {a : Act Services TxnError α} {s : Services} :
      Throughout P a s → Throughout P (Act.attempt a) s

namespace Throughout

variable {P Q : Ledger → Prop} {α β : Type} {a : Act Services TxnError α} {s : Services}

theorem mono (h : Throughout P a s) (hpq : ∀ l, P l → Q l) : Throughout Q a s := by
  induction h with
  | fetch h => exact .fetch (hpq _ h)
  | create h => exact .create (hpq _ h)
  | update h => exact .update (hpq _ h)
  | tick => exact .tick
  | count => exact .count
  | report => exact .report
  | pure => exact .pure
  | throw => exact .throw
  | bind _ _ iha ihf => exact .bind iha ihf
  | attempt _ ih => exact .attempt ih

theorem map (h : Throughout P a s) (f : α → β) : Throughout P (f <$> a) s := by
  rw [map_eq_pure_bind]
  exact .bind h fun _ _ _ => .pure

/-- What holds after every call, and held before the first, holds in the end. -/
theorem final (h : Throughout P a s) (h₀ : P s.ledger) : P (a.exec s).2.ledger := by
  induction h with
  | fetch h | create h | update h =>
    rw [exec_onLedger]
    exact h
  | @tick s =>
    cases hr : s.clock.reading s.clock.taken with
    | none =>
      rw [exec_tick_none hr]
      exact h₀
    | some ts =>
      rw [exec_tick_some hr]
      exact h₀
  | count | report | pure | throw => exact h₀
  | @bind _ _ a f s _ _ iha ihf =>
    have hmid := iha h₀
    rw [Act.exec_bind]
    rcases hx : a.exec s with ⟨x | x, t⟩
    · rw [hx] at hmid
      exact hmid
    · rw [hx] at hmid
      exact ihf x t hx hmid
  | attempt _ ih => exact ih h₀

/-- A call that records a transaction leaves the records as they are, or adds one. -/
theorem of_create {t : Txn} (hold : P s.nextLedger)
    (hnew : s.ledger.find? t.id = none → P (s.nextLedger.insert t)) :
    Throughout P (onLedger (Ledger.create t)) s := by
  apply Throughout.create
  rw [Ledger.exec_create]
  by_cases hon : s.nextLedger.switch.on = true
  · cases hf : s.ledger.find? t.id with
    | none => simpa [hon, hf] using hnew hf
    | some u => simpa [hon, hf] using hold
  · simpa [hon] using hold

/-- A call that changes a record leaves the records as they are, or changes an active one. -/
theorem of_update {id : TxnId} {change : Txn → Txn} (hold : P s.nextLedger)
    (hnew : ∀ u, s.ledger.find? id = some u → u.state = .active →
      P (s.nextLedger.replace (change u))) :
    Throughout P (onLedger (Ledger.update id change)) s := by
  apply Throughout.update
  rw [Ledger.exec_update]
  by_cases hon : s.nextLedger.switch.on = true
  · cases hf : s.ledger.find? id with
    | none => simpa [hon, hf] using hold
    | some u =>
      cases ht : u.state.isTerminal with
      | true => simpa [hon, hf, ht] using hold
      | false => simpa [hon, hf, ht] using hnew u hf (Txn.isTerminal_eq_false.1 ht)
  · simpa [hon] using hold

end Throughout

end Services

namespace Lifecycle

open Services

variable {P : Ledger → Prop} (hP : ∀ l l' : Ledger, l'.txns = l.txns → P l → P l') {s : Services}

theorem demandActive_throughout (t : Txn) : Throughout P (demandActive t) s := by
  unfold demandActive
  split
  · exact .throw
  · exact .pure

include hP

theorem recorded_throughout (h : P s.ledger) (id : TxnId) : Throughout P (recorded id) s := by
  refine .bind (.fetch ?_) fun found _ _ => ?_
  · rw [Ledger.exec_fetch]
    split <;> exact hP s.ledger _ rfl h
  · cases found with
    | none => exact .throw
    | some t => exact .pure

theorem globalTimestamp_throughout {budget : Nat} {seen : List TxnId} {next : Option TxnId}
    (h : P s.ledger) : Throughout P (globalTimestamp budget seen next) s := by
  induction budget generalizing s seen next with
  | zero =>
    cases next with
    | none => exact .pure
    | some id => exact .throw
  | succ budget ih =>
    cases next with
    | none => exact .pure
    | some id =>
      unfold globalTimestamp
      split
      · exact .throw
      · refine .bind (recorded_throughout hP h id) fun p s₁ hp => ?_
        split
        · exact .pure
        · split
          · exact .pure
          · exact ih (hP _ _ (recorded_ok hp).2 h)

theorem commitGlobal_throughout (h : P s.ledger) (config : Config) (t : Txn) (ts : Timestamp) :
    Throughout P (commitGlobal config t ts) s := by
  unfold commitGlobal
  split
  · exact .pure
  · exact globalTimestamp_throughout hP h

theorem uncovered_throughout {table : Table} {budget : Nat} {seen : List TxnId}
    {next : Option TxnId} (h : P s.ledger) :
    Throughout P (uncovered table budget seen next) s := by
  induction budget generalizing s seen next with
  | zero =>
    cases next with
    | none => exact .pure
    | some id => exact .throw
  | succ budget ih =>
    cases next with
    | none => exact .pure
    | some id =>
      unfold uncovered
      split
      · exact .throw
      · refine .bind (recorded_throughout hP h id) fun p s₁ hp => ?_
        split
        · exact .pure
        · exact .bind (ih (hP _ _ (recorded_ok hp).2 h)) fun _ _ _ => .pure

end Lifecycle

end NestedTxn
