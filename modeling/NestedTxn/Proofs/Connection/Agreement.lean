import NestedTxn.Proofs.Connection.Steps
import NestedTxn.Proofs.Lifecycle.Agreement

/-!
# Calls of a connection on alike services

Every call of a connection answers alike on twin services, does the same to the connection and
leaves twins (`Connection.Twins`): `activeTxn_agrees`, `setSavepoint_agrees`,
`releaseSavepoint_agrees`, `rollbackTo_agrees`, `commit_agrees`, `abort_agrees`, `close_agrees`,
`elevate_agrees`.
-/

namespace NestedTxn

namespace Connection

open Services

variable {α : Type}

/-- The same connection on twin services. -/
structure Twins (p q : Connection × Services) : Prop where
  connection : p.1 = q.1
  services : p.2.Twins q.2

theorem onSnd_agrees {a : Act Services TxnError α} (h : Act.Agrees Services.Twins a a) :
    Act.Agrees Twins (Act.onSnd a) (Act.onSnd a) := by
  intro p q ⟨hc, hs⟩
  obtain ⟨he, ht⟩ := h p.2 q.2 hs
  exact ⟨he, hc, ht⟩

theorem alter_agrees (f : Connection → Connection) : Act.Agrees Twins (alter f) (alter f) := by
  intro p q ⟨hc, hs⟩
  exact ⟨rfl, congrArg f hc, hs⟩

/-- What follows a look at the connection. -/
theorem agrees_get {f : Connection × Services → Act (Connection × Services) TxnError α}
    (h : ∀ c s t, Act.Agrees Twins (f (c, s)) (f (c, t))) :
    Act.Agrees Twins (get >>= f) (get >>= f) := by
  refine .bind_get fun p q hpq => ?_
  obtain ⟨c, s⟩ := p
  obtain ⟨d, t⟩ := q
  obtain ⟨rfl, _⟩ := hpq
  exact h c s t

theorem trace_agrees (done : Bool) (call : ConnectionCall) (subject : String) :
    Act.Agrees Twins (trace done call subject) (trace done call subject) :=
  agrees_get fun _ _ _ => onSnd_agrees (report_agrees _)

theorem depth_agrees : Act.Agrees Twins
    (do return (← get).1.depth : Act (Connection × Services) TxnError Nat)
    (do return (← get).1.depth) :=
  agrees_get fun _ _ _ => .pure _

theorem leaf_agrees : Act.Agrees Twins leaf leaf := by
  refine agrees_get fun c _ _ => ?_
  dsimp only
  cases c.leaf? with
  | none => exact .throw _
  | some t => exact .pure t

/-! ## Steps of calls -/

theorem heed_agrees (name : String) (on : Bool) : Act.Agrees Twins (heed name on) (heed name on) := by
  unfold heed
  split
  · exact alter_agrees _
  · exact .pure _

theorem ensureActive_agrees (config : Config) :
    Act.Agrees Twins (ensureActive config) (ensureActive config) := by
  refine agrees_get fun c _ _ => ?_
  dsimp only
  cases c.phase with
  | closed => exact .throw _
  | active => exact .pure _
  | idle =>
    exact .bind (onSnd_agrees (Lifecycle.beginRoot_agrees _)) fun _ => alter_agrees _

theorem pushChild_agrees (config : Config) (name : String) :
    Act.Agrees Twins (pushChild config name) (pushChild config name) :=
  .bind leaf_agrees fun _ =>
    .bind (onSnd_agrees (Lifecycle.beginChild_agrees _ _ _ _ _)) fun _ => alter_agrees _

section

variable {finish : Txn → Act Services TxnError Unit}
    (hf : ∀ t, Act.Agrees Services.Twins (finish t) (finish t))
include hf

theorem unwind_agrees (n : Nat) : Act.Agrees Twins (unwind finish n) (unwind finish n) := by
  induction n with
  | zero => exact .pure _
  | succ n ih =>
    exact .bind leaf_agrees fun t => .bind (onSnd_agrees (hf t)) fun _ =>
      .bind (alter_agrees _) fun _ => ih

theorem unwindTo_agrees (name : String) :
    Act.Agrees Twins (unwindTo name finish) (unwindTo name finish) := by
  refine .bind ?_ fun target => agrees_get fun c _ _ =>
    .bind (unwind_agrees hf _) fun _ => alter_agrees _
  refine agrees_get fun c _ _ => ?_
  dsimp only
  split
  · exact .throw _
  · split
    · exact .pure _
    · exact .throw _

end

theorem elevateStack_agrees (config : Config) (table : Table) (st : List Savepoint) :
    Act.Agrees Services.Twins (elevateStack config table st) (elevateStack config table st) := by
  induction st with
  | nil => exact .pure _
  | cons e rest ih =>
    rw [elevateStack]
    refine .bind ih fun r => ?_
    split
    · exact .pure _
    · refine .bind (.attempt (Lifecycle.elevateUnder_agrees _ _ _ _)) fun r => ?_
      split <;> exact .pure _

/-! ## Calls -/

theorem activeTxn_agrees (config : Config) :
    Act.Agrees Twins (activeTxn config) (activeTxn config) :=
  .bind (ensureActive_agrees config) fun _ => leaf_agrees

theorem setSavepoint_agrees (config : Config) (name : String) :
    Act.Agrees Twins (setSavepoint config name) (setSavepoint config name) := by
  rw [setSavepoint_eq]
  refine agrees_get fun c _ _ => ?_
  dsimp only
  split
  · exact .pure _
  · exact .bind (heed_agrees _ _) fun _ => .bind (trace_agrees _ _ _) fun _ =>
      .bind (ensureActive_agrees config) fun _ => .bind (pushChild_agrees config name) fun _ =>
      .bind (trace_agrees _ _ _) fun _ => depth_agrees

theorem releaseSavepoint_agrees (config : Config) (name : String) :
    Act.Agrees Twins (releaseSavepoint config name) (releaseSavepoint config name) := by
  rw [releaseSavepoint_eq]
  refine .bind (heed_agrees _ _) fun _ => agrees_get fun c _ _ => ?_
  dsimp only
  split
  · exact .pure _
  · exact .bind (trace_agrees _ _ _) fun _ =>
      .bind (unwindTo_agrees (fun t => .map (Lifecycle.commit_agrees config t) _) name) fun _ =>
      .bind (trace_agrees _ _ _) fun _ => depth_agrees

theorem rollbackTo_agrees (config : Config) (name : String) :
    Act.Agrees Twins (rollbackTo config name) (rollbackTo config name) := by
  refine agrees_get fun c _ _ => ?_
  dsimp only
  split
  · exact .pure _
  · exact .bind (trace_agrees _ _ _) fun _ =>
      .bind (unwindTo_agrees Lifecycle.rollback_agrees name) fun _ =>
      .bind (setSavepoint_agrees config name) fun _ =>
      .bind (trace_agrees _ _ _) fun _ => .pure _

theorem commit_agrees (config : Config) : Act.Agrees Twins (commit config) (commit config) := by
  rw [commit_eq]
  refine .bind (trace_agrees _ _ _) fun _ => agrees_get fun c _ _ => ?_
  dsimp only
  split
  · exact .bind (onSnd_agrees (report_agrees _)) fun _ => .pure _
  · exact .throw _
  · split
    · exact .bind (alter_agrees _) fun _ => .pure _
    · refine .bind ?_ fun _ => .bind (trace_agrees _ _ _) fun _ => .pure _
      exact .bind (onSnd_agrees (Lifecycle.commit_agrees config _)) fun _ =>
        .bind (alter_agrees _) fun _ => .pure _

theorem abort_agrees : Act.Agrees Twins abort abort := by
  rw [abort_eq]
  refine .bind (trace_agrees _ _ _) fun _ => agrees_get fun c _ _ => ?_
  dsimp only
  split
  · exact .pure _
  · exact .bind (unwind_agrees Lifecycle.rollback_agrees _) fun _ =>
      .bind (alter_agrees _) fun _ => trace_agrees _ _ _

theorem close_agrees : Act.Agrees Twins close close :=
  .bind abort_agrees fun _ => alter_agrees _

theorem elevate_agrees (config : Config) (table : Table) :
    Act.Agrees Twins (elevate config table) (elevate config table) := by
  rw [elevate_eq]
  refine .bind (trace_agrees _ _ _) fun _ => .bind (ensureActive_agrees config) fun _ =>
    .bind ?_ fun _ => .bind (trace_agrees _ _ _) fun _ => leaf_agrees
  refine agrees_get fun c _ _ => ?_
  refine .bind (onSnd_agrees (elevateStack_agrees config table _)) fun r =>
    .bind (alter_agrees _) fun _ => ?_
  split
  · exact .throw _
  · exact .pure _

end Connection

end NestedTxn
