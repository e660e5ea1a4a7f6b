import NestedTxn.Proofs.Connection.Pool
import NestedTxn.Proofs.Row.Outages

/-!
# How long a batch savepoint suppresses others

A savepoint of the name `batchName` suppresses savepoints from when it is set until it is to be
released.

* `Connection.HasBatch`: a batch savepoint is on the stack.
* `Connection.Calm`, `Connection.Steady`: what no call changes that neither sets nor releases a
  batch savepoint.
* `Connection.BatchStep`: all that a call can do to the batch savepoint and to the suppression
  (`Call.run_batch`).
* `Connection.Watched`: a connection, with a note whether the release of its batch savepoint was
  called; `Watched.run`: any calls, with whatever happens to the services in between.
* `Connection.suppressed_iff_batch`: in every run savepoints are suppressed while a batch savepoint
  is there whose release was not called; and no longer, as far as every batch savepoint that is to
  be set is set, and goes by its release.
* `Connection.suppressed_iff_turnedOn`: what holds in every run without that proviso. Suppression
  lasts from the call that turns it on, whether or not that sets a batch savepoint
  (`Watched.turnsOn_set`), to the next release, also when the transaction ends before
  (`Watched.suppressed_of_ends`).
-/

namespace NestedTxn

namespace Connection

open Services

/-- A batch savepoint is on the stack. The bottom entry is no savepoint, whatever its name. -/
def HasBatch (c : Connection) : Prop := ∃ e ∈ c.stack.dropLast, e.name = batchName

/-- A connection that is not active has no entries. -/
def Vacant (c : Connection) : Prop := c.phase ≠ .active → c.stack = []

variable {config : Config} {p p' q : Connection × Services} {c c' : Connection} {name : String}
  {finish : Txn → Act Services TxnError Unit}

theorem not_hasBatch_of_nil (h : c.stack = []) : ¬ c.HasBatch := by
  rintro ⟨e, he, _⟩
  rw [h] at he
  cases he

theorem hasBatch_push {t : Txn} (h : c.stack ≠ []) :
    (c.push name t).HasBatch ↔ name = batchName ∨ c.HasBatch := by
  rw [HasBatch, push, List.dropLast_cons_of_ne_nil h]
  simp [HasBatch]

theorem hasBatch_of_tail {e : Savepoint} {rest : List Savepoint} (h : c.stack = e :: rest)
    (hb : HasBatch { c with stack := rest }) : c.HasBatch := by
  obtain ⟨d, hd, hname⟩ := hb
  have hne : rest ≠ [] := by
    rintro rfl
    cases hd
  refine ⟨d, ?_, hname⟩
  rw [h, List.dropLast_cons_of_ne_nil hne]
  exact List.mem_cons_of_mem _ hd

/-- The names alone decide. -/
theorem hasBatch_congr (h : c'.stack.map (·.name) = c.stack.map (·.name)) :
    c'.HasBatch ↔ c.HasBatch := by
  have hnames : ∀ d : Connection, d.HasBatch ↔ batchName ∈ (d.stack.map (·.name)).dropLast := by
    intro d
    rw [HasBatch, ← List.map_dropLast, List.mem_map]
  rw [hnames, hnames, h]

/-- The suppression stays, and no batch savepoint comes. -/
structure Calm (p p' : Connection × Services) : Prop where
  vacant : p.1.Vacant → p'.1.Vacant
  suppressed : p.1.Vacant → p'.1.suppressed = p.1.suppressed
  fewer : p.1.Vacant → p'.1.HasBatch → p.1.HasBatch

/-- A batch savepoint does not go, either. -/
structure Steady (p p' : Connection × Services) : Prop extends Calm p p' where
  stays : p.1.Vacant → p.1.HasBatch → p'.1.HasBatch

theorem Calm.trans (p p' p'' : Connection × Services) (h : Calm p p') (h' : Calm p' p'') :
    Calm p p'' where
  vacant hv := h'.vacant (h.vacant hv)
  suppressed hv := (h'.suppressed (h.vacant hv)).trans (h.suppressed hv)
  fewer hv hb := h.fewer hv (h'.fewer (h.vacant hv) hb)

theorem Steady.trans (p p' p'' : Connection × Services) (h : Steady p p') (h' : Steady p' p'') :
    Steady p p'' where
  toCalm := h.toCalm.trans _ _ _ h'.toCalm
  stays hv hb := h'.stays (h.vacant hv) (h.stays hv hb)

theorem steady_of_eq (h : p'.1 = p.1) : Steady p p' := by
  obtain ⟨c, s⟩ := p
  obtain ⟨c', s'⟩ := p'
  obtain rfl : c' = c := h
  exact ⟨⟨id, fun _ => rfl, fun _ => id⟩, fun _ => id⟩

theorem calm_of_eq (h : p'.1 = p.1) : Calm p p' := (steady_of_eq h).toCalm

theorem Steady.refl (p : Connection × Services) : Steady p p := steady_of_eq rfl

theorem Calm.refl (p : Connection × Services) : Calm p p := calm_of_eq rfl

/-- A connection that lost its entries. -/
theorem calm_of_nil (h : p'.1.stack = []) (hsup : p'.1.suppressed = p.1.suppressed) : Calm p p' :=
  ⟨fun _ _ => h, fun _ => hsup, fun _ hb => absurd hb (not_hasBatch_of_nil h)⟩

theorem steady_calm {α : Type} {a : Act (Connection × Services) TxnError α}
    (h : Act.Keeps Steady a) : Act.Keeps Calm a :=
  fun p => (h p).toCalm

/-! ## Steps of calls -/

theorem trace_steady (done : Bool) (call : ConnectionCall) (subject : String) :
    Act.Keeps Steady (trace done call subject) := fun _ => steady_of_eq rfl

theorem leaf_steady : Act.Keeps Steady leaf := by
  intro p
  rw [leaf, Act.exec_bind_ok (Act.exec_get p)]
  cases p.1.leaf? <;> exact .refl p

/-- The first entry is the bottom one. -/
theorem begin_steady {t : Txn} {s : Services} (h : p.1.phase ≠ .active) :
    Steady p ({ p.1.push p.1.name t with phase := .active }, s) where
  vacant _ hph := absurd rfl hph
  suppressed _ := rfl
  fewer hv := by
    rintro ⟨e, he, _⟩
    rw [push, hv h] at he
    cases he
  stays hv hb := absurd hb (not_hasBatch_of_nil (hv h))

theorem ensureActive_steady (config : Config) : Act.Keeps Steady (ensureActive config) := by
  intro p
  rcases ensureActive_cases config p with
    ⟨err, s', hx, _⟩ | ⟨_, hx⟩ | ⟨ts, s', hp, _, _, hx, _⟩ <;> rw [hx]
  · exact steady_of_eq rfl
  · exact .refl p
  · exact begin_steady (by rw [hp]; nofun)

theorem activateNested_steady (config : Config) (outer : Txn) (additive : Bool)
    (table : Option Table) : Act.Keeps Steady (activateNested config outer additive table) := by
  intro p
  rw [activateNested, Act.exec_bind_ok (Act.exec_get p)]
  cases hp : p.1.phase with
  | closed | active => exact .refl p
  | idle =>
    rw [Act.exec_bind, Act.exec_onSnd]
    rcases (Lifecycle.beginChild config outer (some outer.isolation) additive table).exec p.2 with
      ⟨e | t, s⟩
    · exact steady_of_eq rfl
    · exact begin_steady (by simp [hp])

theorem names_of_kept {l : Ledger} {st st' : List Savepoint}
    (h : List.Forall₂ (Savepoint.Kept l) st st') : st'.map (·.name) = st.map (·.name) := by
  induction h with
  | nil => rfl
  | cons he _ ih => rw [List.map_cons, List.map_cons, he.name, ih]

theorem elevateEntries_steady (config : Config) (table : Table) :
    Act.Keeps Steady (elevateEntries config table) := by
  intro p
  obtain ⟨st', res, s', hx, _, hk⟩ := elevateStack_kept config table p.1.stack p.2
  have hnames := names_of_kept hk
  have hsame : Steady p ({ p.1 with stack := st' }, s') := by
    have hiff : HasBatch { p.1 with stack := st' } ↔ p.1.HasBatch := hasBatch_congr hnames
    refine ⟨⟨fun hv hph => ?_, fun _ => rfl, fun _ => hiff.1⟩, fun _ => hiff.2⟩
    have hlen := congrArg List.length hnames
    rw [List.length_map, List.length_map, hv hph] at hlen
    exact List.length_eq_zero_iff.1 hlen
  rw [elevateEntries]
  simp only [Act.exec_bind, Act.exec_get, Act.exec_onSnd, hx, alter, Act.exec_modify]
  cases res <;> exact hsame

/-- A child of another name. -/
theorem pushChild_calm (config : Config) (hname : name ≠ batchName) :
    Act.Keeps Calm (pushChild config name) := by
  intro p
  rcases pushChild_cases config name p with
    ⟨err, s', hx, _⟩ | ⟨e, rest, ts, d, s', hst, _, _, _, _, hx, _⟩ <;> rw [hx]
  · exact calm_of_eq rfl
  · have hne : p.1.stack ≠ [] := by simp [hst]
    refine ⟨fun hv hph => absurd (hv hph) hne, fun _ => rfl, fun _ hb => ?_⟩
    exact ((hasBatch_push hne).1 hb).resolve_left hname

theorem dropTop_calm : Act.Keeps Calm (dropTop finish) := by
  intro p
  rcases hx : (dropTop finish).exec p with ⟨err | x, q⟩
  · exact calm_of_eq (dropTop_error hx)
  · obtain ⟨e, rest, hst, hq⟩ := dropTop_ok hx
    have hne : p.1.stack ≠ [] := by simp [hst]
    refine ⟨fun hv => ?_, fun _ => by rw [hq], fun _ hb => hasBatch_of_tail hst (hq ▸ hb)⟩
    intro hph
    rw [hq] at hph
    exact absurd (hv hph) hne

theorem settle_calm : Act.Keeps Calm (alter settle) := by
  intro p
  refine ⟨fun hv => ?_, fun _ => settle_suppressed p.1, fun _ hb => ?_⟩
  · intro hph
    rw [exec_alter, settle_stack]
    rw [exec_alter, settle] at hph
    split at hph
    · next h => simpa using h.1
    · exact hv hph
  · rw [exec_alter] at hb
    exact (hasBatch_congr (by rw [settle_stack])).1 hb

/-- Ending entries leaves the suppression as it is. -/
theorem calm_unwinding (config : Config) : Unwinding config Calm where
  refl := .refl
  trans := .trans
  report _ _ := calm_of_eq rfl
  settle := settle_calm
  rest _ _ hp := ⟨fun hv _ => hp.elim hv id, fun _ => rfl, fun _ => id⟩
  rollbackTop := dropTop_calm
  commitTop := dropTop_calm

theorem unwindTo_calm (name : String) : Act.Keeps Calm (unwindTo name finish) :=
  (calm_unwinding {}).unwindTo dropTop_calm name

/-! ## Calls -/

theorem activeTxn_steady (config : Config) : Act.Keeps Steady (activeTxn config) :=
  .bind Steady.trans (ensureActive_steady config) fun _ => leaf_steady

theorem elevate_steady (config : Config) (table : Table) :
    Act.Keeps Steady (elevate config table) := by
  rw [elevate_eq]
  exact .bind Steady.trans (trace_steady _ _ _) fun _ =>
    .bind Steady.trans (ensureActive_steady config) fun _ =>
    .bind Steady.trans (elevateEntries_steady config table) fun _ =>
    .bind Steady.trans (trace_steady _ _ _) fun _ => leaf_steady

theorem commit_calm (config : Config) : Act.Keeps Calm (commit config) := by
  rw [commit_eq]
  refine .bind Calm.trans (steady_calm (trace_steady _ _ _)) fun _ p => ?_
  rw [Act.exec_bind_ok (Act.exec_get p)]
  cases p.1.phase with
  | idle => exact calm_of_eq rfl
  | closed => exact .refl p
  | active =>
    dsimp only
    cases hb : p.1.bottom? with
    | none =>
      have hst : p.1.stack = [] := by simpa [bottom?] using hb
      exact calm_of_nil hst rfl
    | some bottom =>
      rcases dropAll_cases config hb with ⟨e, s', hx, _⟩ | ⟨e, u, ts, g, q, hx, hc⟩
      · rw [Act.exec_bind_error hx]
        exact calm_of_eq rfl
      · rw [Act.exec_bind_ok hx]
        have hq : q.1 = { p.1 with stack := [], phase := .idle } := hc.connection
        exact .trans p q _ (calm_of_nil (by rw [hq]) (by rw [hq])) (calm_of_eq rfl)

theorem abort_calm : Act.Keeps Calm abort := (calm_unwinding {}).abort

theorem close_calm : Act.Keeps Calm close := (calm_unwinding {}).close

/-! ## Batch savepoints -/

theorem heed_of_ne (hname : name ≠ batchName) (on : Bool) : heed name on = pure () := if_neg hname

theorem heed_batch (on : Bool) : heed batchName on = alter (·.suppress on) := if_pos rfl

/-- While savepoints are suppressed, none is set. -/
theorem setSavepoint_suppressed (h : p.1.suppressed = true) :
    (setSavepoint config name).exec p = (.ok 1, p) := by
  rw [setSavepoint_eq, Act.exec_bind_ok (Act.exec_get p), if_pos h]
  rfl

theorem setSavepoint_calm (hname : name ≠ batchName) :
    Act.Keeps Calm (setSavepoint config name) := by
  intro p
  rw [setSavepoint_eq, Act.exec_bind_ok (Act.exec_get p)]
  split
  · exact .refl p
  · rw [heed_of_ne hname, pure_bind]
    refine Act.Keeps.bind_at Calm.trans (calm_of_eq rfl) fun _ => ?_
    exact .bind Calm.trans (steady_calm (ensureActive_steady config)) fun _ =>
      .bind Calm.trans (pushChild_calm config hname) fun _ =>
      .bind Calm.trans (steady_calm (trace_steady _ _ _)) fun _ =>
      .bind Calm.trans .refl fun _ => .refl

/-- A batch savepoint that is set is there, and suppresses savepoints. One that cannot be set
suppresses them, too. -/
theorem setSavepoint_batch (hv : p.1.Vacant) (h : p.1.suppressed = false) {x : Except TxnError Nat}
    (hx : (setSavepoint config batchName).exec p = (x, p')) :
    p'.1.Vacant ∧ p'.1.suppressed = true ∧
      ((∃ n, x = .ok n) ∧ p'.1.HasBatch ∨
        (∃ e, x = .error e) ∧ (p'.1.HasBatch → p.1.HasBatch)) := by
  let p₁ : Connection × Services := (p.1.suppress true, p.2)
  let p₂ : Connection × Services :=
    (p₁.1, p₁.2.reported (.connection p₁.1 false .setSavepoint batchName))
  rw [setSavepoint_eq, Act.exec_bind_ok (Act.exec_get p), if_neg (by simp [h]), heed_batch,
    Act.exec_bind_ok (exec_alter _ p)] at hx
  rw [Act.exec_bind_ok (exec_trace _ _ _ p₁)] at hx
  have hsteady := ensureActive_steady config p₂
  rcases he : (ensureActive config).exec p₂ with ⟨e | u, q⟩ <;> rw [he] at hsteady
  · rw [Act.exec_bind_error he] at hx
    cases hx
    exact ⟨hsteady.vacant hv, hsteady.suppressed hv, .inr ⟨⟨e, rfl⟩, hsteady.fewer hv⟩⟩
  · rw [Act.exec_bind_ok he] at hx
    rcases pushChild_cases config batchName q with
      ⟨e, s', hp, _⟩ | ⟨d, rest, ts, dest, s', hst, _, _, _, _, hp, _⟩
    · rw [Act.exec_bind_error hp] at hx
      cases hx
      exact ⟨hsteady.vacant hv, hsteady.suppressed hv, .inr ⟨⟨e, rfl⟩, hsteady.fewer hv⟩⟩
    · rw [Act.exec_bind_ok hp] at hx
      cases hx
      have hne : q.1.stack ≠ [] := by simp [hst]
      refine ⟨fun hph => absurd (hsteady.vacant hv hph) hne, hsteady.suppressed hv,
        .inl ⟨⟨_, rfl⟩, ?_⟩⟩
      exact (hasBatch_push hne).2 (.inl rfl)

theorem releaseSavepoint_suppressed (hname : name ≠ batchName) (h : p.1.suppressed = true) :
    (releaseSavepoint config name).exec p = (.ok 0, p) := by
  rw [releaseSavepoint_eq, heed_of_ne hname, pure_bind, Act.exec_bind_ok (Act.exec_get p), if_pos h]
  rfl

/-- What a release does once it has heeded the name. -/
theorem release_calm (config : Config) (name : String) :
    Act.Keeps Calm (do
      let p ← get
      if p.1.suppressed then return 0
      else
        trace false .releaseSavepoint name
        unwindTo name fun t => discard (Lifecycle.commit config t)
        trace true .releaseSavepoint name
        return (← get).1.depth : Act (Connection × Services) TxnError Nat) := by
  intro p
  rw [Act.exec_bind_ok (Act.exec_get p)]
  split
  · exact .refl p
  · refine Act.Keeps.bind_at Calm.trans (calm_of_eq rfl) fun _ => ?_
    exact .bind Calm.trans (unwindTo_calm name) fun _ =>
      .bind Calm.trans (steady_calm (trace_steady _ _ _)) fun _ =>
      .bind Calm.trans .refl fun _ => .refl

theorem releaseSavepoint_calm (hname : name ≠ batchName) :
    Act.Keeps Calm (releaseSavepoint config name) := by
  rw [releaseSavepoint_eq, heed_of_ne hname, pure_bind]
  exact release_calm config name

/-- A release of the batch savepoint ends the suppression, also if it fails. -/
theorem releaseSavepoint_batch (config : Config) (p : Connection × Services) :
    Calm (p.1.suppress false, p.2) ((releaseSavepoint config batchName).exec p).2 := by
  rw [releaseSavepoint_eq, heed_batch, Act.exec_bind_ok (exec_alter _ p)]
  exact release_calm config batchName _

/-- While savepoints are suppressed, nothing is rolled back. -/
theorem rollbackTo_suppressed (h : p.1.suppressed = true) :
    (rollbackTo config name).exec p = (.ok 0, p) := by
  rw [rollbackTo, Act.exec_bind_ok (Act.exec_get p), if_pos h]
  rfl

theorem rollbackTo_calm (hname : name ≠ batchName) : Act.Keeps Calm (rollbackTo config name) := by
  intro p
  rw [rollbackTo, Act.exec_bind_ok (Act.exec_get p)]
  split
  · exact .refl p
  · refine Act.Keeps.bind_at Calm.trans (calm_of_eq rfl) fun _ => ?_
    exact .bind Calm.trans (unwindTo_calm name) fun _ =>
      .bind Calm.trans (setSavepoint_calm hname) fun _ =>
      .bind Calm.trans (steady_calm (trace_steady _ _ _)) fun _ => .refl

/-- A batch savepoint that is rolled back is set again. -/
theorem rollbackTo_batch (hv : p.1.Vacant) (h : p.1.suppressed = false) {x : Except TxnError Nat}
    (hx : (rollbackTo config batchName).exec p = (x, p')) :
    p'.1.Vacant ∧
      ((∃ n, x = .ok n) ∧ p'.1.suppressed = true ∧ p'.1.HasBatch ∨
        (∃ e, x = .error e) ∧ (p'.1.HasBatch → p.1.HasBatch)) := by
  let p₁ : Connection × Services :=
    (p.1, p.2.reported (.connection p.1 false .rollbackToSavepoint batchName))
  rw [rollbackTo, Act.exec_bind_ok (Act.exec_get p), if_neg (by simp [h]),
    Act.exec_bind_ok (exec_trace _ _ _ p)] at hx
  have hcalm : Calm p₁ ((unwindTo batchName Lifecycle.rollback).exec p₁).2 :=
    unwindTo_calm batchName p₁
  rcases hu : (unwindTo batchName Lifecycle.rollback).exec p₁ with ⟨e | u, q⟩ <;> rw [hu] at hcalm
  · rw [Act.exec_bind_error hu] at hx
    cases hx
    exact ⟨hcalm.vacant hv, .inr ⟨⟨e, rfl⟩, hcalm.fewer hv⟩⟩
  · rw [Act.exec_bind_ok hu] at hx
    have hq : q.1.suppressed = false := (hcalm.suppressed hv).trans h
    rcases hs : (setSavepoint config batchName).exec q with ⟨e | n, q'⟩
    · obtain ⟨hv', _, ⟨⟨_, hn⟩, _⟩ | ⟨_, hfewer⟩⟩ := setSavepoint_batch (hcalm.vacant hv) hq hs
      · cases hn
      · rw [Act.exec_bind_error hs] at hx
        cases hx
        exact ⟨hv', .inr ⟨⟨e, rfl⟩, fun hb => hcalm.fewer hv (hfewer hb)⟩⟩
    · obtain ⟨hv', hsup, ⟨_, hb⟩ | ⟨⟨_, he⟩, _⟩⟩ := setSavepoint_batch (hcalm.vacant hv) hq hs
      · rw [Act.exec_bind_ok hs] at hx
        cases hx
        exact ⟨hv', .inl ⟨⟨n, rfl⟩, hsup, hb⟩⟩
      · cases he

/-! ## What a call can do -/

/-- Calls that set a batch savepoint, unless savepoints are suppressed. -/
def Call.setsBatch : Call → Bool
  | setSavepoint name | rollbackTo name => name = batchName
  | _ => false

/-- The release of the batch savepoint. -/
def Call.releasesBatch : Call → Bool
  | releaseSavepoint name => name = batchName
  | _ => false

/-- Calls that end the transaction of the connection. -/
def Call.ends : Call → Bool
  | commit | abort | close => true
  | _ => false

/-- All that a call can do to the batch savepoint and to the suppression. -/
inductive BatchStep (call : Call) (c : Connection) (x : Except TxnError Unit) (c' : Connection) :
    Prop
  /-- A batch savepoint is set. -/
  | set : call.setsBatch = true → call.releasesBatch = false → x = .ok () → c.suppressed = false →
      c'.suppressed = true → c'.HasBatch → BatchStep call c x c'
  /-- A batch savepoint could not be set. -/
  | failed {e : TxnError} : call.setsBatch = true → call.releasesBatch = false → x = .error e →
      c.suppressed = false → (c'.HasBatch → c.HasBatch) → BatchStep call c x c'
  /-- The release of the batch savepoint is called. -/
  | release : call.releasesBatch = true → c'.suppressed = false → BatchStep call c x c'
  /-- Savepoints stay suppressed. -/
  | hold : call.releasesBatch = false → c.suppressed = true → c'.suppressed = true →
      (call.ends = false → c.HasBatch → c'.HasBatch) → BatchStep call c x c'
  /-- Savepoints stay possible. -/
  | calm : call.setsBatch = false → call.releasesBatch = false → c.suppressed = false →
      c'.suppressed = false → (c'.HasBatch → c.HasBatch) → BatchStep call c x c'

/-- A call that has nothing to do with the batch savepoint. -/
theorem Steady.batchStep {call : Call} {x : Except TxnError Unit} (h : Steady p p')
    (hv : p.1.Vacant) (hs : call.setsBatch = false) (hr : call.releasesBatch = false) :
    BatchStep call p.1 x p'.1 := by
  cases hsup : p.1.suppressed with
  | false => exact .calm hs hr hsup ((h.suppressed hv).trans hsup) (h.fewer hv)
  | true => exact .hold hr hsup ((h.suppressed hv).trans hsup) fun _ => h.stays hv

/-- A call that can take the batch savepoint away, and does nothing else to it. -/
theorem Calm.batchStep {call : Call} {x : Except TxnError Unit} (h : Calm p p') (hv : p.1.Vacant)
    (hs : call.setsBatch = false) (hr : call.releasesBatch = false)
    (hends : call.ends = true ∨ p.1.suppressed = false) : BatchStep call p.1 x p'.1 := by
  cases hsup : p.1.suppressed with
  | false => exact .calm hs hr hsup ((h.suppressed hv).trans hsup) (h.fewer hv)
  | true =>
    refine .hold hr hsup ((h.suppressed hv).trans hsup) fun hn => ?_
    rw [hsup, hn] at hends
    rcases hends with hends | hends <;> cases hends

/-- A call is one of these steps, and leaves entries only on an active connection. -/
theorem Call.run_batch (config : Config) {call : Call} (hcall : ∀ on, call ≠ .suppress on)
    (hv : p.1.Vacant) :
    ((call.run config).exec p).2.1.Vacant ∧
      BatchStep call p.1 ((call.run config).exec p).1 ((call.run config).exec p).2.1 := by
  cases call with
  | activeTxn =>
    have h := (activeTxn_steady config).map (fun _ => ()) p
    exact ⟨h.vacant hv, h.batchStep hv rfl rfl⟩
  | activateNested outer additive table =>
    have h := activateNested_steady config outer additive table p
    exact ⟨h.vacant hv, h.batchStep hv rfl rfl⟩
  | elevate table =>
    have h := (elevate_steady config table).map (fun _ => ()) p
    exact ⟨h.vacant hv, h.batchStep hv rfl rfl⟩
  | commit =>
    have h := (commit_calm config).map (fun _ => ()) p
    exact ⟨h.vacant hv, h.batchStep hv rfl rfl (.inl rfl)⟩
  | abort =>
    have h := abort_calm p
    exact ⟨h.vacant hv, h.batchStep hv rfl rfl (.inl rfl)⟩
  | close =>
    have h := close_calm p
    exact ⟨h.vacant hv, h.batchStep hv rfl rfl (.inl rfl)⟩
  | suppress on => exact absurd rfl (hcall on)
  | releaseSavepoint name =>
    by_cases hname : name = batchName
    · subst hname
      have h := releaseSavepoint_batch config p
      rw [run, Act.exec_discard]
      exact ⟨h.vacant hv, .release (by simp [releasesBatch]) (h.suppressed hv)⟩
    · have hr : (releaseSavepoint name).releasesBatch = false := by simp [releasesBatch, hname]
      rw [run, Act.exec_discard]
      cases hsup : p.1.suppressed with
      | true =>
        rw [releaseSavepoint_suppressed hname hsup]
        exact ⟨hv, (Steady.refl p).batchStep hv rfl hr⟩
      | false =>
        have h : Calm p ((Connection.releaseSavepoint config name).exec p).2 :=
          releaseSavepoint_calm hname p
        exact ⟨h.vacant hv, h.batchStep hv rfl hr (.inr hsup)⟩
  | setSavepoint name =>
    rw [run, Act.exec_discard]
    cases hsup : p.1.suppressed with
    | true =>
      rw [setSavepoint_suppressed hsup]
      exact ⟨hv, .hold rfl hsup hsup fun _ => id⟩
    | false =>
      by_cases hname : name = batchName
      · subst hname
        rcases hx : (Connection.setSavepoint config batchName).exec p with ⟨x, q⟩
        obtain ⟨hv', hsup', ⟨⟨n, rfl⟩, hb⟩ | ⟨⟨e, rfl⟩, hfewer⟩⟩ := setSavepoint_batch hv hsup hx
        · exact ⟨hv', .set (by simp [setsBatch]) rfl rfl hsup hsup' hb⟩
        · exact ⟨hv', .failed (by simp [setsBatch]) rfl rfl hsup hfewer⟩
      · have h : Calm p ((Connection.setSavepoint config name).exec p).2 :=
          setSavepoint_calm hname p
        exact ⟨h.vacant hv, h.batchStep hv (by simp [setsBatch, hname]) rfl (.inr hsup)⟩
  | rollbackTo name =>
    rw [run, Act.exec_discard]
    cases hsup : p.1.suppressed with
    | true =>
      rw [rollbackTo_suppressed hsup]
      exact ⟨hv, .hold rfl hsup hsup fun _ => id⟩
    | false =>
      by_cases hname : name = batchName
      · subst hname
        rcases hx : (Connection.rollbackTo config batchName).exec p with ⟨x, q⟩
        obtain ⟨hv', ⟨⟨n, rfl⟩, hsup', hb⟩ | ⟨⟨e, rfl⟩, hfewer⟩⟩ := rollbackTo_batch hv hsup hx
        · exact ⟨hv', .set (by simp [setsBatch]) rfl rfl hsup hsup' hb⟩
        · exact ⟨hv', .failed (by simp [setsBatch]) rfl rfl hsup hfewer⟩
      · have h : Calm p ((Connection.rollbackTo config name).exec p).2 := rollbackTo_calm hname p
        exact ⟨h.vacant hv, h.batchStep hv (by simp [setsBatch, hname]) rfl (.inr hsup)⟩

/-- A call that ends the transaction and succeeds leaves no entries. -/
theorem Call.stack_of_ends {call : Call} (hc : call.ends = true) (hv : p.1.Vacant)
    (hok : ((call.run config).exec p).1 = .ok ()) : ((call.run config).exec p).2.1.stack = [] := by
  have habort : ∀ {q}, Connection.abort.exec p = (.ok (), q) → q.1.stack = [] := by
    intro q hq
    rw [abort_ok hq]
    split
    · rfl
    · next hph => exact hv hph
  cases call with
  | commit =>
    rw [run, Act.exec_discard] at hok ⊢
    rcases commit_cases config p with
      ⟨e, s', hx, -⟩ | ⟨c', s', hx, hidle, hst, -⟩ | ⟨e, u, ts, g, q, hx, hcleared⟩ <;>
      rw [hx] at hok ⊢
    · cases hok
    · exact hst.trans (hidle.elim hv id)
    · exact congrArg Connection.stack hcleared.connection
  | abort =>
    rcases hx : Connection.abort.exec p with ⟨e | u, q⟩ <;> rw [run, hx] at hok ⊢
    · cases hok
    · exact habort hx
  | close =>
    rw [run, Connection.close] at hok ⊢
    rcases hx : Connection.abort.exec p with ⟨e | u, q⟩
    · rw [Act.exec_bind_error hx] at hok
      cases hok
    · rw [Act.exec_bind_ok hx]
      have hnil : q.1.stack = [] := habort hx
      exact hnil
  | _ => cases hc

/-! ## Runs -/

/-- Something that happens around a connection. -/
inductive Moment where
  /-- It is called. -/
  | call (c : Call)
  /-- Others use the services, or a store goes off or comes back. -/
  | meanwhile (s : Services)

/-- The release of the batch savepoint is called. -/
def Moment.Releases (m : Moment) : Prop := ∃ c, m = call c ∧ c.releasesBatch = true

/-- A connection with the services, and a note about its batch savepoint. -/
structure Watched where
  /-- The connection and the services. -/
  view : Connection × Services
  /-- Whether the release of the batch savepoint was called since one was last set. -/
  released : Bool := false

namespace Watched

/-- The note after a call. -/
def note (w : Watched) (c : Call) (x : Except TxnError Unit) : Bool :=
  c.releasesBatch || w.released && !(c.setsBatch && x.isOk && !w.view.1.suppressed)

/-- What comes after a moment. -/
def after (config : Config) (w : Watched) : Moment → Watched
  | .call c =>
    let r := (c.run config).exec w.view
    { view := r.2, released := w.note c r.1 }
  | .meanwhile s => { w with view := (w.view.1, s) }

/-- What comes after some moments. -/
def run (config : Config) (w : Watched) : List Moment → Watched
  | [] => w
  | m :: ms => (w.after config m).run config ms

/-- A call does not turn the suppression on and fail, and ends no transaction while savepoints are
suppressed. -/
def Smooth (config : Config) (w : Watched) : Moment → Prop
  | .call c =>
    let r := (c.run config).exec w.view
    (w.view.1.suppressed = false → r.2.1.suppressed = true → r.1 = .ok ()) ∧
      (w.view.1.suppressed = true → c.ends = true → r.2.1.stack = w.view.1.stack)
  | .meanwhile _ => True

/-- Nor does any call of a run. -/
def SmoothRun (config : Config) (w : Watched) : List Moment → Prop
  | [] => True
  | m :: ms => w.Smooth config m ∧ (w.after config m).SmoothRun config ms

/-- While a batch savepoint is there whose release was not called, savepoints are suppressed. -/
structure Covered (w : Watched) : Prop where
  vacant : w.view.1.Vacant
  suppressed : w.view.1.HasBatch → w.released = false → w.view.1.suppressed = true

/-- Savepoints are suppressed by such a batch savepoint only. -/
def Exact (w : Watched) : Prop :=
  w.view.1.suppressed = true → w.view.1.HasBatch ∧ w.released = false

variable {w : Watched} {m : Moment} {ms : List Moment}

theorem Covered.after (h : w.Covered) (hm : ∀ on, m ≠ .call (.suppress on)) :
    (w.after config m).Covered := by
  cases m with
  | meanwhile s => exact ⟨h.vacant, h.suppressed⟩
  | call c =>
    obtain ⟨hv, hstep⟩ := c.run_batch config (fun on hc => hm on (by rw [hc])) h.vacant
    refine ⟨hv, fun hb hn => ?_⟩
    dsimp only [Watched.after, note] at hb hn
    rw [Bool.or_eq_false_iff, Bool.and_eq_false_iff] at hn
    cases hstep with
    | set _ _ _ _ hsup _ | hold _ _ hsup _ => exact hsup
    | release hr _ => rw [hn.1] at hr; cases hr
    | failed _ _ hx hsup hfewer =>
      rw [hx] at hn
      have hold := h.suppressed (hfewer hb) (by simpa [Except.isOk, Except.toBool] using hn.2)
      rw [hsup] at hold
      cases hold
    | calm hs _ hsup _ hfewer =>
      have hold := h.suppressed (hfewer hb) (by simpa [hs] using hn.2)
      rw [hsup] at hold
      cases hold

theorem Exact.after (h : w.Exact) (hc : w.Covered) (hm : ∀ on, m ≠ .call (.suppress on))
    (hsmooth : w.Smooth config m) : (w.after config m).Exact := by
  cases m with
  | meanwhile s => exact h
  | call c =>
    obtain ⟨_, hstep⟩ := c.run_batch config (fun on hc => hm on (by rw [hc])) hc.vacant
    obtain ⟨hanswered, hends⟩ := hsmooth
    intro hsup'
    dsimp only [Watched.after, note] at hsup' ⊢
    cases hstep with
    | set hs hr hx hsup _ hb => exact ⟨hb, by simp [hs, hr, hx, hsup, Except.isOk, Except.toBool]⟩
    | failed _ _ hx hsup _ =>
      rw [hanswered hsup hsup'] at hx
      cases hx
    | release _ hsup | calm _ _ _ hsup _ =>
      rw [hsup] at hsup'
      cases hsup'
    | hold hr hsup _ hstays =>
      obtain ⟨hb, hn⟩ := h hsup
      refine ⟨?_, by simp [hr, hn]⟩
      cases he : c.ends with
      | false => exact hstays he hb
      | true => exact (hasBatch_congr (by rw [hends hsup he])).2 hb

theorem Covered.run (h : w.Covered) (hms : ∀ m ∈ ms, ∀ on, m ≠ .call (.suppress on)) :
    (w.run config ms).Covered := by
  induction ms generalizing w with
  | nil => exact h
  | cons m ms ih =>
    exact ih (h.after (hms m (List.mem_cons_self ..))) fun n hn => hms n (List.mem_cons_of_mem _ hn)

theorem Exact.run (h : w.Exact) (hc : w.Covered)
    (hms : ∀ m ∈ ms, ∀ on, m ≠ .call (.suppress on)) (hsmooth : w.SmoothRun config ms) :
    (w.run config ms).Exact := by
  induction ms generalizing w with
  | nil => exact h
  | cons m ms ih =>
    have hm := hms m (List.mem_cons_self ..)
    exact ih (h.after hc hm hsmooth.1) (hc.after hm)
      (fun n hn => hms n (List.mem_cons_of_mem _ hn)) hsmooth.2

/-- A new connection. -/
def start (config : Config) (name : String) (s : Services) : Watched where
  view := (.ofName config name, s)

theorem start_covered (config : Config) (name : String) (s : Services) :
    (start config name s).Covered :=
  ⟨fun _ => rfl, fun hb => absurd hb (not_hasBatch_of_nil rfl)⟩

theorem run_concat (config : Config) (w : Watched) (ms : List Moment) (m : Moment) :
    w.run config (ms ++ [m]) = (w.run config ms).after config m := by
  induction ms generalizing w with
  | nil => rfl
  | cons n ms ih => exact ih (w.after config n)

/-! ## What turns suppression on -/

/-- The call turns suppression on. -/
structure TurnsOn (config : Config) (w : Watched) (c : Call) : Prop where
  sets : c.setsBatch = true
  off : w.view.1.suppressed = false
  on : (w.after config (.call c)).view.1.suppressed = true

/-- To set the batch savepoint turns suppression on, also if it cannot be set. Then there is no more
of it than before. -/
theorem turnsOn_set (config : Config) (hv : w.view.1.Vacant) (hoff : w.view.1.suppressed = false) :
    w.TurnsOn config (.setSavepoint batchName) ∧
      ((((Call.setSavepoint batchName).run config).exec w.view).1 = .ok () →
        (w.after config (.call (.setSavepoint batchName))).view.1.HasBatch) ∧
      ∀ e, (((Call.setSavepoint batchName).run config).exec w.view).1 = .error e →
        (w.after config (.call (.setSavepoint batchName))).view.1.HasBatch → w.view.1.HasBatch := by
  rcases hx : (setSavepoint config batchName).exec w.view with ⟨x, q⟩
  have hrun : ((Call.setSavepoint batchName).run config).exec w.view = (x.map fun _ => (), q) := by
    rw [Call.run, Act.exec_discard, hx]
  obtain ⟨-, hsup, ⟨⟨n, rfl⟩, hb⟩ | ⟨⟨e, rfl⟩, hfewer⟩⟩ := setSavepoint_batch hv hoff hx
  · refine ⟨⟨by simp [Call.setsBatch], hoff, ?_⟩, fun _ => ?_, fun e he => ?_⟩
    · rw [after, hrun]
      exact hsup
    · rw [after, hrun]
      exact hb
    · rw [hrun] at he
      cases he
  · refine ⟨⟨by simp [Call.setsBatch], hoff, ?_⟩, fun hok => ?_, fun _ _ => ?_⟩
    · rw [after, hrun]
      exact hsup
    · rw [hrun] at hok
      cases hok
    · rw [after, hrun]
      exact hfewer

/-- After a moment savepoints are suppressed if it turned suppression on, or if they were and it is
no release. -/
theorem suppressed_after (hv : w.view.1.Vacant) (hm : ∀ on, m ≠ .call (.suppress on)) :
    (w.after config m).view.1.suppressed = true ↔
      (∃ c, m = .call c ∧ w.TurnsOn config c) ∨ w.view.1.suppressed = true ∧ ¬ m.Releases := by
  cases m with
  | meanwhile s =>
    constructor
    · exact fun h => .inr ⟨h, by rintro ⟨_, hc, -⟩; cases hc⟩
    · rintro (⟨_, hc, -⟩ | ⟨h, -⟩)
      · cases hc
      · exact h
  | call c =>
    have hcall : ∀ {P : Call → Prop}, (∃ d, Moment.call c = .call d ∧ P d) ↔ P c := by simp
    rw [Moment.Releases, hcall, hcall]
    obtain ⟨-, hstep⟩ := c.run_batch config (fun on hc => hm on (by rw [hc])) hv
    constructor
    · intro hon
      cases hstep with
      | set hs _ _ hoff _ _ | failed hs _ _ hoff _ => exact .inl ⟨hs, hoff, hon⟩
      | release _ hsup | calm _ _ _ hsup _ =>
        rw [show (w.after config (.call c)).view.1.suppressed = false from hsup] at hon
        cases hon
      | hold hr hsup _ _ => exact .inr ⟨hsup, by simp [hr]⟩
    · rintro (hon | ⟨hsup, hr⟩)
      · exact hon.on
      · cases hstep with
        | set _ _ _ hoff _ _ | failed _ _ _ hoff _ | calm _ _ hoff _ _ =>
          rw [hoff] at hsup
          cases hsup
        | release hr' _ => exact absurd hr' hr
        | hold _ _ hsup' _ => exact hsup'

/-- A call that ends the transaction leaves savepoints suppressed. If it succeeds, there is no batch
savepoint any more. -/
theorem suppressed_of_ends {c : Call} (hc : c.ends = true) (hv : w.view.1.Vacant)
    (hsup : w.view.1.suppressed = true) :
    (w.after config (.call c)).view.1.suppressed = true ∧
      (((c.run config).exec w.view).1 = .ok () →
        ¬ (w.after config (.call c)).view.1.HasBatch) := by
  refine ⟨(suppressed_after hv ?_).2 (.inr ⟨hsup, ?_⟩), fun hok => not_hasBatch_of_nil ?_⟩
  · rintro on hm
    cases hm
    cases hc
  · rintro ⟨d, hd, hr⟩
    cases hd
    cases c <;> simp [Call.ends, Call.releasesBatch] at hc hr
  · exact Call.stack_of_ends hc hv hok

end Watched

/-- In every run of a connection that does not suppress savepoints from the start and is not told
to, whatever does not answer: after every call savepoints are suppressed while a batch savepoint is
on the stack whose release was not called since it was set. They are suppressed then only, if no
call turns the suppression on and fails, and none ends the transaction while savepoints are
suppressed. -/
theorem suppressed_iff_batch {config : Config} (hconfig : config.ignoreSavepoints = false)
    (name : String) (s : Services) {ms : List Moment}
    (hms : ∀ m ∈ ms, ∀ on, m ≠ .call (.suppress on)) :
    let w := (Watched.start config name s).run config ms
    (w.view.1.HasBatch ∧ w.released = false → w.view.1.suppressed = true) ∧
      ((Watched.start config name s).SmoothRun config ms →
        (w.view.1.suppressed = true ↔ w.view.1.HasBatch ∧ w.released = false)) := by
  intro w
  have hcovered := Watched.start_covered config name s
  have hexact : (Watched.start config name s).Exact := by
    intro hsup
    have hnot : (Watched.start config name s).view.1.suppressed = false := hconfig
    rw [hnot] at hsup
    cases hsup
  have hafter : w.Covered := hcovered.run hms
  exact ⟨fun h => hafter.suppressed h.1 h.2, fun hsmooth =>
    ⟨hexact.run hcovered hms hsmooth, fun h => hafter.suppressed h.1 h.2⟩⟩

/-- In every such run, whatever does not answer, savepoints are suppressed exactly if a call turned
suppression on and the release of the batch savepoint was not called since. -/
theorem suppressed_iff_turnedOn {config : Config} (hconfig : config.ignoreSavepoints = false)
    (name : String) (s : Services) {ms : List Moment}
    (hms : ∀ m ∈ ms, ∀ on, m ≠ .call (.suppress on)) :
    let w₀ := Watched.start config name s
    (w₀.run config ms).view.1.suppressed = true ↔
      ∃ before c after, ms = before ++ .call c :: after ∧
        (w₀.run config before).TurnsOn config c ∧ ∀ m ∈ after, ¬ m.Releases := by
  intro w₀
  induction ms using List.reverseRecOn with
  | nil =>
    refine ⟨fun hsup => ?_, ?_⟩
    · rw [show (w₀.run config []).view.1.suppressed = false from hconfig] at hsup
      cases hsup
    · rintro ⟨before, _, _, hsplit, -⟩
      simp at hsplit
  | append_singleton ms m ih =>
    have hbefore : ∀ m ∈ ms, ∀ on, m ≠ .call (.suppress on) := fun m hm =>
      hms m (List.mem_append_left _ hm)
    have hcovered : (w₀.run config ms).Covered :=
      (Watched.start_covered config name s).run hbefore
    rw [Watched.run_concat, Watched.suppressed_after hcovered.vacant (hms m (by simp)), ih hbefore]
    constructor
    · rintro (⟨c, rfl, hon⟩ | ⟨⟨before, c, after, rfl, hon, hafter⟩, hm⟩)
      · exact ⟨ms, c, [], rfl, hon, List.forall_mem_nil _⟩
      · refine ⟨before, c, after ++ [m], by simp, hon, ?_⟩
        exact List.forall_mem_append.2 ⟨hafter, List.forall_mem_singleton.2 hm⟩
    · rintro ⟨before, c, after, hsplit, hon, hafter⟩
      -- the call is the last moment, or one of the others
      rcases List.eq_nil_or_concat after with rfl | ⟨after, n, rfl⟩
      · obtain ⟨rfl, hm⟩ := List.append_inj' hsplit rfl
        exact .inl ⟨c, List.singleton_inj.1 hm, hon⟩
      · rw [List.concat_eq_append, ← List.cons_append, ← List.append_assoc] at hsplit
        obtain ⟨rfl, hm⟩ := List.append_inj' hsplit rfl
        obtain rfl := List.singleton_inj.1 hm
        rw [List.concat_eq_append, List.forall_mem_append] at hafter
        exact .inr ⟨⟨before, c, after, rfl, hon, hafter.1⟩, hafter.2 _ (List.mem_singleton_self _)⟩

instance (c : Connection) : Decidable c.HasBatch :=
  inferInstanceAs (Decidable (∃ e ∈ c.stack.dropLast, e.name = batchName))

/-- A batch savepoint, and another savepoint, which is not set. -/
def batchMoments : List Moment :=
  [.call (.setSavepoint batchName), .call (.setSavepoint "a"), .call (.releaseSavepoint "a")]

theorem suppressed_iff_batch_set :
    ((Watched.start {} "c" {}).run {} batchMoments).view.1.HasBatch ∧
      ((Watched.start {} "c" {}).run {} batchMoments).released = false := by
  have hms : ∀ m ∈ batchMoments, ∀ on, m ≠ .call (.suppress on) := by simp [batchMoments]
  refine ((suppressed_iff_batch rfl "c" {} hms).2 ?_).1 rfl
  exact ⟨⟨fun _ _ => rfl, nofun⟩, ⟨nofun, nofun⟩, ⟨nofun, nofun⟩, trivial⟩

/-- A batch savepoint is set. Its release fails, since the ledger is off at one call. -/
def unreleasedBatch : Watched :=
  (Watched.start {} "c" { ledger := { switch := .lapsing 2 } }).run {}
    [.call (.setSavepoint batchName), .call (.releaseSavepoint batchName)]

/-- The batch savepoint is still there, the ledger is back, and savepoints are not suppressed. -/
theorem batch_unsuppressed :
    unreleasedBatch.view.1.HasBatch ∧
      (∀ n, unreleasedBatch.view.2.ledger.switch.answers n = true) ∧
      unreleasedBatch.view.1.suppressed = false ∧
      ((setSavepoint {} "a").exec unreleasedBatch.view).1 = .ok 3 := by
  refine ⟨by decide +kernel, fun n => ?_, rfl, rfl⟩
  change decide (3 + n ≠ 2) = true
  rw [decide_eq_true_eq]
  omega

end Connection

end NestedTxn
