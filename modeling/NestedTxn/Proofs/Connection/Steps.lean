import NestedTxn.Connection.Calls
import NestedTxn.Proofs.Act
import NestedTxn.Proofs.Ledger.Growth

/-!
# The calls of a connection in steps

* `Connection.heed`, `pushChild`, `dropTop`, `dropAll`, `elevateEntries`: the steps that change the
  stack or the switch of a connection.
* `setSavepoint_eq`, `releaseSavepoint_eq`, `unwind_succ`, `commit_eq`, `abort_eq`, `elevate_eq`:
  the calls are sequences of them.
-/

namespace NestedTxn

namespace Connection

open Services

/-- Suppress savepoints, or stop doing so, if the name asks for it. -/
def heed (name : String) (on : Bool) : Act (Connection × Services) TxnError Unit :=
  if name = batchName then alter (·.suppress on) else pure ()

/-- Begin a child of the leaf, and push it. -/
def pushChild (config : Config) (name : String) : Act (Connection × Services) TxnError Unit := do
  let parent ← leaf
  let t ← Act.onSnd (Lifecycle.beginChild config parent)
  alter (·.push name t)

/-- End the leaf with `finish`, and take it off the stack. -/
def dropTop (finish : Txn → Act Services TxnError Unit) :
    Act (Connection × Services) TxnError Unit := do
  let top ← leaf
  Act.onSnd (finish top)
  alter pop

/-- Commit the bottom entry, and clear the stack. -/
def dropAll (config : Config) (bottom : Txn) : Act (Connection × Services) TxnError Timestamp := do
  let ts ← Act.onSnd (Lifecycle.commit config bottom)
  alter fun c => { c with stack := [], phase := .idle }
  return ts

/-- Elevate the entries, bottom first, until one fails. -/
def elevateEntries (config : Config) (table : Table) :
    Act (Connection × Services) TxnError Unit := do
  let r ← Act.onSnd (elevateStack config table (← get).1.stack)
  alter fun c => { c with stack := r.1 }
  match r.2 with
  | .error e => throw e
  | .ok _ => return

@[simp] theorem exec_alter (f : Connection → Connection) (p : Connection × Services) :
    (alter f).exec p = (.ok (), f p.1, p.2) := rfl

@[simp] theorem exec_trace (done : Bool) (call : ConnectionCall) (subject : String)
    (p : Connection × Services) :
    (trace done call subject).exec p =
      (.ok (), p.1, p.2.reported (.connection p.1 done call subject)) := rfl

theorem exec_leaf_nil {p : Connection × Services} (h : p.1.stack = []) :
    leaf.exec p = (.error .closed, p) := by
  simp [leaf, leaf?, Act.exec_bind, h]

theorem exec_leaf_cons {p : Connection × Services} {e : Savepoint} {rest : List Savepoint}
    (h : p.1.stack = e :: rest) : leaf.exec p = (.ok e.txn, p) := by
  simp [leaf, leaf?, Act.exec_bind, h]

@[simp] theorem settle_stack (c : Connection) : c.settle.stack = c.stack := by
  unfold settle
  split <;> rfl

@[simp] theorem settle_name (c : Connection) : c.settle.name = c.name := by
  unfold settle
  split <;> rfl

@[simp] theorem settle_suppressed (c : Connection) : c.settle.suppressed = c.suppressed := by
  unfold settle
  split <;> rfl

/-- A search changes nothing. -/
theorem find_same {name : String} {p p' : Connection × Services} {x : Except TxnError Nat}
    (h : (find name).exec p = (x, p')) : p' = p := by
  rw [find, Act.exec_bind_ok (Act.exec_get p)] at h
  dsimp only at h
  split at h
  · cases h
    rfl
  · split at h <;> cases h <;> rfl

theorem unwind_succ (finish : Txn → Act Services TxnError Unit) (n : Nat) :
    unwind finish (n + 1) = (do dropTop finish; unwind finish n) := by
  simp only [unwind, dropTop, bind_assoc]

/-- The leaf that was dropped was the top entry. -/
theorem dropTop_ok {finish : Txn → Act Services TxnError Unit} {p p' : Connection × Services}
    (h : (dropTop finish).exec p = (.ok (), p')) :
    ∃ e rest, p.1.stack = e :: rest ∧ p'.1 = { p.1 with stack := rest } := by
  rw [dropTop] at h
  cases hst : p.1.stack with
  | nil =>
    rw [Act.exec_bind_error (exec_leaf_nil hst)] at h
    cases h
  | cons e rest =>
    refine ⟨e, rest, rfl, ?_⟩
    rw [Act.exec_bind_ok (exec_leaf_cons hst), Act.exec_bind, Act.exec_onSnd] at h
    rcases hf : (finish e.txn).exec p.2 with ⟨err | x, s⟩
    · rw [hf] at h
      cases h
    · rw [hf] at h
      cases h
      simp [pop, hst]

theorem unwind_ok {finish : Txn → Act Services TxnError Unit} {n : Nat}
    {p p' : Connection × Services} (h : (unwind finish n).exec p = (.ok (), p')) :
    n ≤ p.1.depth ∧ p'.1 = { p.1 with stack := p.1.stack.drop n } := by
  induction n generalizing p with
  | zero =>
    cases h
    exact ⟨Nat.zero_le _, rfl⟩
  | succ n ih =>
    rw [unwind_succ] at h
    obtain ⟨_, q, hd, h⟩ := Act.exec_bind_eq_ok h
    obtain ⟨e, rest, hst, hq⟩ := dropTop_ok hd
    obtain ⟨hn, hp'⟩ := ih h
    rw [hq] at hn hp'
    refine ⟨?_, by simp [hp', hst]⟩
    simp only [depth, hst, List.length_cons] at hn ⊢
    omega

theorem dropTop_error {finish : Txn → Act Services TxnError Unit} {p p' : Connection × Services}
    {err : TxnError} (h : (dropTop finish).exec p = (.error err, p')) : p'.1 = p.1 := by
  rw [dropTop] at h
  cases hst : p.1.stack with
  | nil =>
    rw [Act.exec_bind_error (exec_leaf_nil hst)] at h
    cases h
    rfl
  | cons e rest =>
    rw [Act.exec_bind_ok (exec_leaf_cons hst), Act.exec_bind, Act.exec_onSnd] at h
    rcases hf : (finish e.txn).exec p.2 with ⟨err | x, s⟩
    · rw [hf] at h
      cases h
      rfl
    · rw [hf] at h
      cases h

/-- An unwinding that fails has dropped fewer entries. -/
theorem unwind_error {finish : Txn → Act Services TxnError Unit} {n : Nat}
    {p p' : Connection × Services} {err : TxnError}
    (h : (unwind finish n).exec p = (.error err, p')) :
    ∃ k < n, p'.1 = { p.1 with stack := p.1.stack.drop k } := by
  induction n generalizing p with
  | zero => cases h
  | succ n ih =>
    rw [unwind_succ] at h
    rcases hd : (dropTop finish).exec p with ⟨err' | x, q⟩
    · rw [Act.exec_bind_error hd] at h
      cases h
      exact ⟨0, Nat.succ_pos n, dropTop_error hd⟩
    · rw [Act.exec_bind_ok hd] at h
      obtain ⟨e, rest, hst, hq⟩ := dropTop_ok hd
      obtain ⟨k, hk, hp'⟩ := ih h
      refine ⟨k + 1, by omega, ?_⟩
      rw [hp', hq, hst, List.drop_succ_cons]

theorem setSavepoint_eq (config : Config) (name : String) : setSavepoint config name = do
    let p ← get
    if p.1.suppressed then return 1
    else
      heed name true
      trace false .setSavepoint name
      ensureActive config
      pushChild config name
      trace true .setSavepoint name
      return (← get).1.depth := by
  simp only [setSavepoint, heed, pushChild, bind_assoc]
  congr
  funext p
  by_cases hn : name = batchName <;> simp [hn]

theorem releaseSavepoint_eq (config : Config) (name : String) : releaseSavepoint config name = do
    heed name false
    let p ← get
    if p.1.suppressed then return 0
    else
      trace false .releaseSavepoint name
      unwindTo name fun t => discard (Lifecycle.commit config t)
      trace true .releaseSavepoint name
      return (← get).1.depth := by
  by_cases hn : name = batchName <;> simp [releaseSavepoint, heed, hn]

theorem commit_eq (config : Config) : commit config = do
    trace false .commit ""
    let p ← get
    match p.1.phase with
    | .idle =>
      Act.onSnd (report (.nothingToCommit p.1.name))
      return none
    | .closed => throw .closed
    | .active =>
      match p.1.bottom? with
      | none =>
        alter fun c => { c with phase := .idle }
        return none
      | some bottom =>
        let ts ← dropAll config bottom
        trace true .commit ""
        return some ts := by
  rw [commit]
  congr
  funext _
  congr
  funext p
  dsimp only
  cases p.1.phase with
  | idle | closed => rfl
  | active =>
    cases p.1.bottom? with
    | none => rfl
    | some bottom => simp only [dropAll, bind_assoc, pure_bind]

theorem abort_eq : abort = (do
    trace false .abort ""
    let p ← get
    if p.1.phase ≠ .active then return
    else
      unwind Lifecycle.rollback p.1.depth
      alter fun c => { c with phase := .idle }
      trace true .abort "") := rfl

/-- An aborted connection has nothing left. -/
theorem abort_ok {p p' : Connection × Services} (h : abort.exec p = (.ok (), p')) :
    p'.1 = if p.1.phase = .active then { p.1 with stack := [], phase := .idle } else p.1 := by
  rw [abort_eq, Act.exec_bind_ok (exec_trace _ _ _ p), Act.exec_bind_ok (Act.exec_get _)] at h
  split at h
  · next hp =>
    cases h
    rw [if_neg hp]
  · next hp =>
    obtain ⟨_, q, hu, h⟩ := Act.exec_bind_eq_ok h
    rw [Act.exec_bind_ok (exec_alter _ q), exec_trace] at h
    cases h
    rw [if_pos (Decidable.not_not.1 hp)]
    dsimp only
    rw [(unwind_ok hu).2]
    simp [depth]

theorem elevate_eq (config : Config) (table : Table) : elevate config table = (do
    trace false .elevate table
    ensureActive config
    elevateEntries config table
    trace true .elevate table
    leaf) := by
  simp only [elevate, elevateEntries, bind_assoc]
  congr
  funext _
  congr
  funext _
  congr
  funext p
  congr
  funext r
  rcases r with ⟨st, e | t⟩ <;> simp

end Connection

end NestedTxn
