import NestedTxn.Proofs.Connection.Shifts

/-!
# Active connections have entries

Between its calls a connection is active only with an entry on its stack (`Connection.Rests`). In the
middle of a call it may be active without: an unwinding takes the entries off the stack and leaves
it to `settle`, or to the end of an abort, to make the connection idle. So this is kept by the calls
(`setSavepoint_rests` and so on), not by their shifts. A call that fails half-way fails with an entry
still on the stack (`unwind_error_rests`).
-/

namespace NestedTxn

namespace Connection

open Services

/-- Only a stack with entries makes a connection active: so it is between calls. -/
def Rests (c : Connection) : Prop := c.phase = .active → c.stack ≠ []

/-- A connection that was at rest is so again. -/
def StaysAtRest (p p' : Connection × Services) : Prop := p.1.Rests → p'.1.Rests

variable {config : Config} {finish : Txn → Act Services TxnError Unit}

theorem StaysAtRest.refl (p : Connection × Services) : StaysAtRest p p := id

theorem StaysAtRest.trans (p p' p'' : Connection × Services) (h : StaysAtRest p p')
    (h' : StaysAtRest p' p'') : StaysAtRest p p'' := fun ha => h' (h ha)

theorem rests_of_ne {c : Connection} (h : c.phase ≠ .active) : c.Rests := fun ha => absurd ha h

/-! ## Steps of calls -/

theorem trace_rests (done : Bool) (call : ConnectionCall) (subject : String) :
    Act.Keeps StaysAtRest (trace done call subject) := fun _ => id

theorem leaf_rests : Act.Keeps StaysAtRest leaf := by
  intro p
  rw [leaf, Act.exec_bind_ok (Act.exec_get p)]
  cases p.1.leaf? <;> exact .refl p

theorem heed_rests (name : String) (on : Bool) : Act.Keeps StaysAtRest (heed name on) := by
  intro p
  rw [heed]
  split <;> exact fun ha => ha

theorem onSnd_rests {α : Type} (a : Act Services TxnError α) :
    Act.Keeps StaysAtRest (Act.onSnd a) := fun _ => id

theorem alter_rests {f : Connection → Connection} (h : ∀ c, (f c).Rests) :
    Act.Keeps StaysAtRest (alter f) := fun p _ => h p.1

theorem ensureActive_rests (config : Config) : Act.Keeps StaysAtRest (ensureActive config) := by
  intro p
  rw [ensureActive, Act.exec_bind_ok (Act.exec_get p)]
  cases p.1.phase with
  | closed | active => exact .refl p
  | idle =>
    refine Act.Keeps.bind StaysAtRest.trans (onSnd_rests _) (fun t => ?_) p
    exact alter_rests fun _ _ => List.cons_ne_nil _ _

theorem activateNested_rests (config : Config) (outer : Txn) (additive : Bool)
    (table : Option Table) : Act.Keeps StaysAtRest (activateNested config outer additive table) := by
  intro p
  rw [activateNested, Act.exec_bind_ok (Act.exec_get p)]
  cases p.1.phase with
  | closed | active => exact .refl p
  | idle =>
    refine Act.Keeps.bind StaysAtRest.trans (onSnd_rests _) (fun t => ?_) p
    exact alter_rests fun _ _ => List.cons_ne_nil _ _

theorem pushChild_rests (config : Config) (name : String) :
    Act.Keeps StaysAtRest (pushChild config name) :=
  .bind StaysAtRest.trans leaf_rests fun _ =>
    .bind StaysAtRest.trans (onSnd_rests _) fun _ => alter_rests fun _ _ => List.cons_ne_nil _ _

theorem settle_rests (c : Connection) : c.settle.Rests := by
  unfold settle
  split
  · exact rests_of_ne nofun
  · next hn =>
    intro ha hnil
    exact hn ⟨by simp [hnil], ha⟩

/-- An unwinding that fails leaves an entry. -/
theorem unwind_error_rests {n : Nat} {p p' : Connection × Services} {err : TxnError}
    (h : (unwind finish n).exec p = (.error err, p')) (hn : n ≤ p.1.depth) : p'.1.Rests := by
  obtain ⟨k, hk, hp'⟩ := unwind_error h
  intro _ hnil
  rw [hp'] at hnil
  have hlen := congrArg List.length hnil
  simp only [List.length_drop, List.length_nil, depth] at hlen hn
  omega

theorem unwindTo_rests (name : String) : Act.Keeps StaysAtRest (unwindTo name finish) := by
  intro p
  rw [unwindTo]
  rcases hf : (find name).exec p with ⟨err | target, q⟩
  · obtain rfl := find_same hf
    rw [Act.exec_bind_error hf]
    exact .refl q
  · obtain rfl := find_same hf
    rw [Act.exec_bind_ok hf, Act.exec_bind_ok (Act.exec_get q)]
    rcases hu : (unwind finish (q.1.depth - target)).exec q with ⟨err | x, q'⟩
    · rw [Act.exec_bind_error hu]
      exact fun _ => unwind_error_rests hu (Nat.sub_le _ _)
    · rw [Act.exec_bind_ok hu]
      exact fun _ => settle_rests q'.1

theorem elevateEntries_rests (config : Config) (table : Table) :
    Act.Keeps StaysAtRest (elevateEntries config table) := by
  intro p
  obtain ⟨st', res, s', hx, _, hk⟩ := elevateStack_kept config table p.1.stack p.2
  have hst : p.1.Rests → ({ p.1 with stack := st' } : Connection).Rests := by
    intro ha hph hnil
    refine ha hph (List.length_eq_zero_iff.1 ?_)
    rw [hk.length_eq, show st' = [] from hnil, List.length_nil]
  rw [elevateEntries]
  simp only [Act.exec_bind, Act.exec_get, Act.exec_onSnd, hx, alter, Act.exec_modify]
  cases res <;> exact hst

/-! ## Calls -/

theorem activeTxn_rests (config : Config) : Act.Keeps StaysAtRest (activeTxn config) :=
  .bind StaysAtRest.trans (ensureActive_rests config) fun _ => leaf_rests

theorem setSavepoint_rests (config : Config) (name : String) :
    Act.Keeps StaysAtRest (setSavepoint config name) := by
  rw [setSavepoint_eq]
  refine .bind StaysAtRest.trans StaysAtRest.refl fun p => ?_
  split
  · exact StaysAtRest.refl
  · exact .bind StaysAtRest.trans (heed_rests name true) fun _ =>
      .bind StaysAtRest.trans (trace_rests _ _ _) fun _ =>
      .bind StaysAtRest.trans (ensureActive_rests config) fun _ =>
      .bind StaysAtRest.trans (pushChild_rests config name) fun _ =>
      .bind StaysAtRest.trans (trace_rests _ _ _) fun _ =>
      .bind StaysAtRest.trans StaysAtRest.refl fun _ => StaysAtRest.refl

theorem releaseSavepoint_rests (config : Config) (name : String) :
    Act.Keeps StaysAtRest (releaseSavepoint config name) := by
  rw [releaseSavepoint_eq]
  refine .bind StaysAtRest.trans (heed_rests name false) fun _ =>
    .bind StaysAtRest.trans StaysAtRest.refl fun p => ?_
  split
  · exact StaysAtRest.refl
  · exact .bind StaysAtRest.trans (trace_rests _ _ _) fun _ =>
      .bind StaysAtRest.trans (unwindTo_rests name) fun _ =>
      .bind StaysAtRest.trans (trace_rests _ _ _) fun _ =>
      .bind StaysAtRest.trans StaysAtRest.refl fun _ => StaysAtRest.refl

theorem rollbackTo_rests (config : Config) (name : String) :
    Act.Keeps StaysAtRest (rollbackTo config name) := by
  rw [rollbackTo]
  refine .bind StaysAtRest.trans StaysAtRest.refl fun p => ?_
  split
  · exact StaysAtRest.refl
  · exact .bind StaysAtRest.trans (trace_rests _ _ _) fun _ =>
      .bind StaysAtRest.trans (unwindTo_rests name) fun _ =>
      .bind StaysAtRest.trans (setSavepoint_rests config name) fun _ =>
      .bind StaysAtRest.trans (trace_rests _ _ _) fun _ => StaysAtRest.refl

theorem elevate_rests (config : Config) (table : Table) :
    Act.Keeps StaysAtRest (elevate config table) := by
  rw [elevate_eq]
  exact .bind StaysAtRest.trans (trace_rests _ _ _) fun _ =>
    .bind StaysAtRest.trans (ensureActive_rests config) fun _ =>
    .bind StaysAtRest.trans (elevateEntries_rests config table) fun _ =>
    .bind StaysAtRest.trans (trace_rests _ _ _) fun _ => leaf_rests

theorem dropAll_rests (config : Config) (bottom : Txn) :
    Act.Keeps StaysAtRest (dropAll config bottom) :=
  .bind StaysAtRest.trans (onSnd_rests _) fun _ =>
    .bind StaysAtRest.trans (alter_rests fun _ => rests_of_ne nofun) fun _ => StaysAtRest.refl

theorem commit_rests (config : Config) : Act.Keeps StaysAtRest (commit config) := by
  rw [commit_eq]
  refine .bind StaysAtRest.trans (trace_rests _ _ _) fun _ =>
    .bind StaysAtRest.trans StaysAtRest.refl fun p => ?_
  split
  · exact .bind StaysAtRest.trans (onSnd_rests _) fun _ => StaysAtRest.refl
  · exact StaysAtRest.refl
  · split
    · exact .bind StaysAtRest.trans (alter_rests fun _ => rests_of_ne nofun) fun _ => StaysAtRest.refl
    · exact .bind StaysAtRest.trans (dropAll_rests config _) fun _ =>
        .bind StaysAtRest.trans (trace_rests _ _ _) fun _ => StaysAtRest.refl

theorem abort_rests : Act.Keeps StaysAtRest abort := by
  intro p
  rw [abort_eq, Act.exec_bind_ok (exec_trace _ _ _ p), Act.exec_bind_ok (Act.exec_get _)]
  split
  · exact id
  · rcases hx : (unwind Lifecycle.rollback p.1.depth).exec
      (p.1, p.2.reported (.connection p.1 false .abort "")) with ⟨err | x, q⟩
    · rw [Act.exec_bind_error hx]
      have hq := unwind_error_rests hx (Nat.le_refl p.1.depth)
      exact fun _ => hq
    · rw [Act.exec_bind_ok hx]
      exact fun _ => rests_of_ne nofun

theorem close_rests : Act.Keeps StaysAtRest close :=
  .bind StaysAtRest.trans abort_rests fun _ => alter_rests fun _ => rests_of_ne nofun

end Connection

end NestedTxn
