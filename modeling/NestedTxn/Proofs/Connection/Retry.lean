import NestedTxn.Proofs.Connection.Pool
import NestedTxn.Proofs.Connection.Undoing

/-!
# Repeating a rollback to a savepoint

A rollback to a savepoint that failed half-way (`Connection.Halted`) is called again when the
services work. `rollbackTo_retry_iff`: the second call comes to what one undisturbed call would have
come to exactly if the nearest savepoint of that name still has as many entries below it. It does
unless the first call rolled the savepoint back and could not set it again. Then the second call
rolls back to the next savepoint of that name, and finds none if there is none.
-/

namespace NestedTxn

namespace Connection

open Ledger Services

variable {c c' : Connection} {l l' : Ledger} {name : String} {n m : Nat}
  {r : Except TxnError Nat × Connection × Services}

/-! ## What is left of a call that failed -/

/-- A savepoint at the same height is found exactly if it was not rolled back. -/
theorem Halted.below?_eq (hh : Halted n c l c' l') (h : below? name c.stack = some n) (hn : 0 < n) :
    below? name c'.stack = some n ↔ n < c'.depth := by
  refine ⟨below?_lt, fun hlt => ?_⟩
  cases hh with
  | left m hnm hm hst _ =>
    have hdepth : c'.depth = m := by rw [depth, hst, length_rtake hm]
    rw [hst]
    exact below?_rtake h (hdepth ▸ hlt)
  | root t hn₀ _ _ _ => omega

/-- Both calls together roll back what one call would have. -/
theorem Halted.rollsBackTo (hh : Halted n c l c' l') (h : RollsBackTo name n c' l' r) :
    RollsBackTo name n c l r := by
  obtain ⟨hanswer, ⟨t, base, hst, hlen, hnew⟩, hundone⟩ := h
  cases hh with
  | left m hn hm hst' hundone' =>
    rw [hst', rtake_rtake hn hm] at hst
    have hall := hundone'.trans hundone
    rw [hst', ← List.map_append, rdrop_append_rdrop hn hm] at hall
    exact ⟨hanswer, ⟨t, base, hst, hlen, fun e he => hundone'.unrecorded (hnew e he)⟩, hall⟩
  | root u hn hst' hu hundone' =>
    subst hn
    rw [List.rtake_zero] at hst
    refine ⟨hanswer, ⟨t, base, ?_, hlen, fun e he => hundone'.unrecorded (hnew e he)⟩, ?_⟩
    · rw [hst, List.rtake_zero]
    · -- the root that was begun in between is not one of the earlier transactions
      refine (hundone'.trans hundone).of_mem fun id hid => ?_
      have hne : id ≠ u.id := by
        rintro rfl
        exact hid hu
      simp [hst', hne]

/-- If a call rolls back to the next savepoint of that name, it rolls back too much. -/
theorem Halted.height_eq (hh : Halted n c l c' l') (hp : c.Perched l) (hp' : c'.Perched l')
    (hbelow : below? name c.stack = some n) (hm : below? name c'.stack = some m)
    (h : RollsBackTo name n c l r) (h' : RollsBackTo name m c' l' r) : m = n := by
  have hlt := below?_lt hm
  cases hh with
  | root t hn hst _ _ =>
    rw [hst, List.length_singleton] at hlt
    omega
  | left k hn hk hst _ =>
    by_cases hnk : n < k
    · have hsame := below?_rtake hbelow hnk
      rw [← hst, hm] at hsame
      exact Option.some.inj hsame
    · obtain rfl : n = k := by omega
      exfalso
      -- the top entry of what is left is rolled back by one call, but not by the other
      obtain ⟨d, rest, hcons⟩ := List.exists_cons_of_length_pos (Nat.zero_lt_of_lt hlt)
      have hd : d ∈ c'.stack := by simp [hcons]
      have hkept : d ∈ c.stack.drop (c.stack.length - n) := by
        rw [hst] at hd
        exact hd
      have hdc : d ∈ c.stack := List.mem_of_mem_drop hkept
      obtain ⟨t, ht, _⟩ := hp.found d hdc
      obtain ⟨t', ht', _⟩ := hp'.found d hd
      obtain ⟨u, hu, hut⟩ := h.undone _ t ht
      obtain ⟨u', hu', hut'⟩ := h'.undone _ t' ht'
      rw [hu] at hu'
      cases hu'
      have htop : d.txn.id ∈ (c'.stack.rdrop m).map (·.txn.id) := by
        have hpos : c'.stack.length - m = (c'.stack.length - m - 1) + 1 := by omega
        rw [List.rdrop, hpos, hcons, List.take_succ_cons]
        simp
      have hnodup := hp.nodup
      rw [ids, ← List.take_append_drop (c.stack.length - n) c.stack, List.map_append,
        List.nodup_append] at hnodup
      rcases hut.1 (hut'.2 (.inr htop)) with hstate | hin
      · rw [hp.record_active hdc ht] at hstate
        cases hstate
      · exact hnodup.2.2 _ hin _ (List.mem_map_of_mem hkept) rfl

/-! ## The second call -/

/-- A rollback to a savepoint that is not there fails. -/
theorem rollbackTo_missing {config : Config} {p : Connection × Services}
    (hsup : p.1.suppressed = false) (hopen : p.1.phase ≠ .closed)
    (h : below? name p.1.stack = none) :
    ((rollbackTo config name).exec p).1 = .error (.savepointNotFound name) := by
  let p₁ : Connection × Services :=
    (p.1, p.2.reported (.connection p.1 false .rollbackToSavepoint name))
  have hfind : (find name).exec p₁ = (.error (.savepointNotFound name), p₁) := by
    rw [find, Act.exec_bind_ok (Act.exec_get p₁)]
    dsimp only
    rw [if_neg hopen, h]
    rfl
  rw [rollbackTo_open hsup, unwindTo, Act.exec_bind_error (Act.exec_bind_error hfind)]

/-- What a call comes to depends on the records only. -/
theorem RollsBackTo.of_txns (h : RollsBackTo name n c l r) (hl : l'.txns = l.txns) :
    RollsBackTo name n c l' r := by
  obtain ⟨hanswer, ⟨t, base, hst, hlen, hnew⟩, hundone⟩ := h
  refine ⟨hanswer, ⟨t, base, hst, hlen, fun e he => ?_⟩, ?_⟩
  · rw [find?_congr hl, hnew e he]
  · exact (Undone.of_txns hl.symm).trans hundone

/-- In every run of any number of connections, a rollback to a savepoint that failed, whatever did
not answer, may be called again when the services work. The second call comes to what an undisturbed
one would have come to exactly if the nearest savepoint of that name is at the height where it was.
For a savepoint that is not at the bottom this means that it was not rolled back yet. -/
theorem rollbackTo_retry_iff {config : Config} {w₀ w : Pool} (h₀ : w₀.Fresh)
    (h : Pool.Reach config w₀ w) (i : Nat) (hsup : (w.connections i).suppressed = false)
    (hname : name ≠ batchName) (hbelow : below? name (w.connections i).stack = some n)
    (hmax : 0 < config.maxAncestorDepth) :
    (∀ s : Services, s.ledger.txns = w.ledger.txns → s.Works →
      RollsBackTo name n (w.connections i) w.ledger
        ((rollbackTo config name).exec (w.connections i, s))) ∧
    ∀ err c' s', (rollbackTo config name).exec (w.view i) = (.error err, c', s') →
      (0 < n → (below? name c'.stack = some n ↔ n < c'.depth)) ∧
      ∀ s : Services, s.ledger.txns = s'.ledger.txns → s.Works →
        (RollsBackTo name n (w.connections i) w.ledger ((rollbackTo config name).exec (c', s)) ↔
          below? name c'.stack = some n) ∧
        (∀ m, below? name c'.stack = some m →
          RollsBackTo name m c' s'.ledger ((rollbackTo config name).exec (c', s))) ∧
        (below? name c'.stack = none →
          ((rollbackTo config name).exec (c', s)).1 = .error (.savepointNotFound name)) := by
  have hw := h.upheld h₀
  have hp : (w.connections i).Perched w.ledger := hw.perched i
  have hsound : w.ledger.Sound config.maxAncestorDepth.toNat := hw.genuine.sound
  have hl : (w.connections i).Linked := hw.linked i
  refine ⟨fun s hs hworks => ?_, fun err c' s' hfailed => ?_⟩
  · have hp₁ : (w.connections i).Perched s.ledger := hp.of_txns hs
    exact (rollbackTo_works (p := (w.connections i, s)) hp₁ hbelow (hsound.of_txns hs) hsup hname hl
      hmax hworks).of_txns hs.symm
  have hshifts := rollbackTo_shifts config name (w.view i)
  rw [hfailed] at hshifts
  have hu : Upkept config.maxAncestorDepth.toNat (w.view i) (c', s') :=
    hshifts.upkeep hsound hp hl
  obtain ⟨hh, hsup', hopen⟩ := rollbackTo_halted (p := w.view i) hp hbelow hsound hsup hname hfailed
  refine ⟨hh.below?_eq hbelow, fun s hs hworks => ?_⟩
  have hagain : ∀ m, below? name c'.stack = some m →
      RollsBackTo name m c' s'.ledger ((rollbackTo config name).exec (c', s)) := fun m hm =>
    (rollbackTo_works (p := (c', s)) (hu.perched.of_txns hs) hm (hu.sound.of_txns hs) hsup' hname
      hu.linked hmax hworks).of_txns hs.symm
  have hmissing : below? name c'.stack = none →
      ((rollbackTo config name).exec (c', s)).1 = .error (.savepointNotFound name) :=
    rollbackTo_missing (p := (c', s)) hsup' hopen
  refine ⟨⟨fun hr => ?_, fun hm => hh.rollsBackTo (hagain n hm)⟩, hagain, ?_⟩
  · cases hm : below? name c'.stack with
    | some m => rw [hh.height_eq hp hu.perched hbelow hm hr (hagain m hm)]
    | none =>
      have hanswer := hr.answer
      rw [hmissing hm] at hanswer
      cases hanswer
  · exact hmissing

/-! ## A clock that fails once -/

/-- Idle connections over a clock with the given readings. -/
def scriptedPool (readings : List (Option Timestamp)) : Pool :=
  { idlePool with services := { clock := .scripted readings } }

theorem scriptedPool_fresh (readings : List (Option Timestamp)) :
    (scriptedPool readings).Fresh where
  idle _ := ⟨rfl, rfl⟩
  begun _ := rfl
  world := ⟨rfl, rfl⟩

/-- Connection 0 with a savepoint `a`. The next reading of the clock is absent. -/
def oncePool : Pool :=
  (scriptedPool [some 1, some 2, none, some 3, some 4]).after {} 0 (.setSavepoint "a")

theorem reach_oncePool :
    Pool.Reach {} (scriptedPool [some 1, some 2, none, some 3, some 4]) oncePool := by
  refine .single (.call 0 ?_)
  intro t ht
  cases ht

/-- Connection 0 with two savepoints `a`. The next reading of the clock is absent. -/
def twicePool : Pool :=
  ((scriptedPool [some 1, some 2, some 3, none, some 4, some 5]).after {} 0
    (.setSavepoint "a")).after {} 0 (.setSavepoint "a")

theorem reach_twicePool :
    Pool.Reach {} (scriptedPool [some 1, some 2, some 3, none, some 4, some 5]) twicePool := by
  refine .tail (.single (.call 0 ?_)) (.call 0 ?_) <;>
  · intro t ht
    cases ht

/-- What a rollback to `a` by connection 0 comes to. -/
def retreat (w : Pool) : Except TxnError Nat × Connection × Services :=
  (rollbackTo {} "a").exec (w.view 0)

theorem works_twice : (retreat twicePool).2.2.Works :=
  .of_readings (fun _ _ => rfl) rfl rfl (by decide) rfl rfl

/-- The general rule at this run: the second call rolls back to the lower savepoint. -/
theorem rollbackTo_retry_deeper :
    retreat twicePool = (.error (.unavailable .clock), (retreat twicePool).2) ∧
      RollsBackTo "a" 1 (retreat twicePool).2.1 (retreat twicePool).2.2.ledger
        ((rollbackTo {} "a").exec (retreat twicePool).2) := by
  have hbelow : below? "a" (twicePool.connections 0).stack = some 2 := rfl
  have hrun := rollbackTo_retry_iff (scriptedPool_fresh _) reach_twicePool 0 rfl (by decide) hbelow
    (by decide)
  refine ⟨rfl, ?_⟩
  exact ((hrun.2 _ _ _ rfl).2 _ rfl works_twice).2.1 1 rfl

theorem works_once : (retreat oncePool).2.2.Works :=
  .of_readings (fun _ _ => rfl) rfl rfl (by decide) rfl rfl

/-- A rollback to a savepoint that fails may lose the savepoint: the second call does not find it,
although the services work. -/
theorem rollbackTo_retry_lost :
    ∃ w₀ w c' s', w₀.Fresh ∧ Pool.Reach {} w₀ w ∧ (w.connections 0).suppressed = false ∧
      "a" ≠ batchName ∧ below? "a" (w.connections 0).stack = some 1 ∧
      (rollbackTo {} "a").exec (w.view 0) = (.error (.unavailable .clock), c', s') ∧ s'.Works ∧
      ((rollbackTo {} "a").exec (c', s')).1 = .error (.savepointNotFound "a") :=
  ⟨_, oncePool, _, _, scriptedPool_fresh _, reach_oncePool, rfl, by decide, rfl, rfl, works_once,
    rfl⟩

end Connection

end NestedTxn
