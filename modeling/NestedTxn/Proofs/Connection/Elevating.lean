import NestedTxn.Proofs.Connection.Copies
import NestedTxn.Proofs.Lifecycle.Cascade

/-!
# Elevating a stack is elevating its leaf

A connection elevates its entries one by one, bottom first, and looks at no ancestor of an entry but
the one below it. The lifecycle looks up all ancestors of the leaf, and grants the table from the
outermost one down.

* `Connection.exec_elevateStack`: while the ledger answers, the first is the cascade along the chain
  of the leaf, as the second is (`Lifecycle.exec_elevate`).
* `Connection.elevateStack_covering`: where all entries cover the table nothing happens.
* `Connection.elevate_as_leaf`: in every run both give the same answer and leave the same records.
  The bottom entry may hang below a transaction that has ended.
-/

namespace NestedTxn

namespace Connection

open Ledger Services

variable {config : Config} {c c' : Connection} {s s' : Services} {table : Table} {t u : Txn}
  {e : Savepoint} {st st' rest : List Savepoint}

/-! ## Stacks -/

/-- Where all entries cover the table nothing happens. -/
theorem elevateStack_covering (config : Config) (hst : ∀ e ∈ st, e.txn.writableFor table = true)
    (s : Services) :
    (elevateStack config table st).exec s = (.ok (st, .ok (st.head?.map (·.txn))), s) := by
  induction st with
  | nil => rfl
  | cons e rest ih =>
    obtain ⟨he, hrest⟩ := List.forall_mem_cons.1 hst
    have hunder : ∀ parent, (Lifecycle.elevateUnder config e.txn table parent).exec s =
        (.ok e.txn, s) := by
      intro parent
      rw [Lifecycle.elevateUnder, if_pos he]
      rfl
    rw [elevateStack, Act.exec_bind_ok (ih hrest)]
    simp [Act.exec_bind, hunder]

/-- While the ledger answers, the elevation of a stack is the cascade along the chain of its top
entry. If it gets to the top, all entries cover the table. -/
theorem exec_elevateStack (hup : s.ledger.switch.Up)
    (hl : s.ledger.Proper config.maxAncestorDepth.toNat)
    (hlinked : (e :: rest).IsChain Savepoint.On)
    (hstands : ∀ d ∈ e :: rest, ∃ v, s.ledger.Stands d.txn v) (hu : s.ledger.Stands e.txn u)
    {k : List Txn} (hk : s.ledger.Chain e.txn.id (u :: k)) (table : Table) :
    ∃ st' s', (elevateStack config table (e :: rest)).exec s =
        (.ok (st', (s.ledger.cascade table (u :: k)).1.map fun _ =>
          some (Lifecycle.elevated table e.txn u)), s') ∧
      s.Records (s.ledger.cascade table (u :: k)).2 s' ∧
      ((s.ledger.cascade table (u :: k)).1 = .ok () →
        st'.head?.map (·.txn) = some (Lifecycle.elevated table e.txn u) ∧
        ∀ d ∈ st', d.txn.writableFor table = true) := by
  have hcovers := Lifecycle.writableFor_elevated table e.txn u
  induction rest generalizing e u k with
  | nil =>
    obtain ⟨s', hx, hr⟩ := Lifecycle.exec_elevate hup hl hu hk table
    rw [← Lifecycle.elevateUnder_none] at hx
    rw [elevateStack, elevateStack, pure_bind]
    rcases hcas : s.ledger.cascade table (u :: k) with ⟨err | x, l'⟩ <;> rw [hcas] at hx hr
    · exact ⟨[e], s', by simp [Act.exec_bind, hx, Except.map], hr, fun h => by cases h⟩
    · refine ⟨[{ e with txn := Lifecycle.elevated table e.txn u }], s', ?_, hr, fun _ => ?_⟩
      · simp [Act.exec_bind, hx, Except.map]
      · exact ⟨rfl, List.forall_mem_singleton.2 hcovers⟩
  | cons d rest ih =>
    obtain ⟨hon, hlinked⟩ := List.isChain_cons_cons.1 hlinked
    obtain ⟨v, hv⟩ := hstands d (by simp)
    have hparent : u.parent = some d.txn.id :=
      (Txn.parent_of_origin hu.leads.origin).trans hon.parent
    obtain ⟨w, k, rfl, hw⟩ := (hk.tail hparent).eq_cons
    rw [hv.found] at hw
    cases hw
    have hbelow := hk.tail hparent
    obtain ⟨rest', s₁, hx, hr, hall⟩ := ih hlinked
      (fun d hd => hstands d (List.mem_cons_of_mem _ hd)) hv hbelow
      (Lifecycle.writableFor_elevated table d.txn v)
    rw [elevateStack, Act.exec_bind_ok hx]
    rcases Ledger.cascade_cons hl hk hu.active table with
      ⟨err, hcas, hfull⟩ | ⟨hok, _, _⟩
    · rw [hfull, hcas]
      exact ⟨e :: rest', s₁, rfl, hr, fun h => by cases h⟩
    · -- the entry below covers the table now, and is the parent
      have hpar : (some (Lifecycle.elevated table d.txn v)).any fun p =>
          e.txn.parent = some p.id && p.writableFor table := by
        simp [hon.parent, Lifecycle.elevated_id (id_of_find? hv.found),
          Lifecycle.writableFor_elevated]
      obtain ⟨hfull, s₂, hy, hr₂⟩ :=
        Lifecycle.exec_elevateUnder config hl hu hk (hr.up hup) hok hr.txns hpar
      rw [hok, hfull]
      refine ⟨{ e with txn := Lifecycle.elevated table e.txn u } :: rest', s₂, ?_,
        ⟨hr.toSpares.trans hr₂.toSpares, hr₂.txns⟩, fun _ => ⟨rfl, ?_⟩⟩
      · simp [Act.exec_bind, Except.map, hy]
      · exact List.forall_mem_cons.2 ⟨hcovers, (hall hok).2⟩

/-! ## Calls -/

section

variable (hph : c.phase = .active)
include hph

/-- An active connection elevates its stack, and then gives its leaf. -/
theorem exec_elevate_active (config : Config) (table : Table) (s : Services) :
    (elevate config table).exec (c, s) =
      (do elevateEntries config table; trace true .elevate table; leaf).exec
        (c, s.reported (.connection c false .elevate table)) := by
  have hactive : ∀ s : Services, (ensureActive config).exec (c, s) = (.ok (), c, s) := by
    intro s
    rw [ensureActive, Act.exec_bind_ok (Act.exec_get _)]
    dsimp only
    rw [hph]
    rfl
  rw [elevate_eq, Act.exec_bind_ok (exec_trace _ _ _ _), Act.exec_bind_ok (hactive _)]

theorem exec_elevate_error {err : TxnError} (hx : (elevateStack config table c.stack).exec
      (s.reported (.connection c false .elevate table)) = (.ok (st', .error err), s')) :
    (elevate config table).exec (c, s) = (.error err, { c with stack := st' }, s') := by
  rw [exec_elevate_active hph]
  simp only [elevateEntries, Act.exec_bind, Act.exec_get, Act.exec_onSnd, hx, exec_alter]
  rfl

theorem exec_elevate_ok {t? : Option Txn} (hst : st' = e :: rest)
    (hx : (elevateStack config table c.stack).exec
      (s.reported (.connection c false .elevate table)) = (.ok (st', .ok t?), s')) :
    (elevate config table).exec (c, s) = (.ok e.txn, { c with stack := st' },
      s'.reported (.connection { c with stack := st' } true .elevate table)) := by
  rw [exec_elevate_active hph]
  simp only [elevateEntries, Act.exec_bind, Act.exec_get, Act.exec_onSnd, hx, exec_alter,
    Act.exec_pure, exec_trace]
  exact exec_leaf_cons hst

/-- A connection whose entries cover the table gives its leaf. It reports that, and does nothing
else. -/
theorem exec_elevate_covering (hst : c.stack = e :: rest)
    (hcovers : ∀ d ∈ c.stack, d.txn.writableFor table = true) (config : Config) (s : Services) :
    ∃ s', (elevate config table).exec (c, s) = (.ok e.txn, c, s') ∧
      { s' with log := s.log } = s :=
  ⟨_, exec_elevate_ok hph hst (elevateStack_covering config hcovers _), rfl⟩

end

/-- The elevation of a stack of copies of active records, and that of its leaf. -/
theorem elevate_cascades (hup : s.ledger.switch.Up)
    (hl : s.ledger.Proper config.maxAncestorDepth.toNat) (hc : c.Held s.ledger)
    (hph : c.phase = .active) (hst : c.stack = e :: rest)
    (hactive : ∀ d ∈ c.stack, s.ledger.state? d.txn.id = some .active) (table : Table) :
    ∃ x c' s₁ s₂, (elevate config table).exec (c, s) = (x, c', s₁) ∧
      (Lifecycle.elevate config e.txn table).exec s = (x, s₂) ∧
      s₁.ledger.txns = s₂.ledger.txns ∧
      ∀ t, x = .ok t → c'.phase = .active ∧ (∃ name rest', c'.stack = ⟨name, t⟩ :: rest') ∧
        ∀ d ∈ c'.stack, d.txn.writableFor table = true := by
  have hstands : ∀ d ∈ e :: rest, ∃ v, s.ledger.Stands d.txn v := fun d hd =>
    (hc.copied d (hst ▸ hd)).stands (hactive d (hst ▸ hd))
  obtain ⟨u, hu⟩ := hstands e (List.mem_cons_self ..)
  obtain ⟨k, hk⟩ := hl.sound.chain hu.found
  have hlinked : (e :: rest).IsChain Savepoint.On := hst ▸ hc.linked
  let s₀ := s.reported (.connection c false .elevate table)
  obtain ⟨st', s₁, hx, hr, hall⟩ :=
    exec_elevateStack (s := s₀) hup hl hlinked hstands hu hk table
  obtain ⟨s₂, hy, hr₂⟩ := Lifecycle.exec_elevate hup hl hu hk table
  rw [← hst] at hx
  have htxns : s₁.ledger.txns = s₂.ledger.txns := hr.txns.trans hr₂.txns.symm
  rcases hcas : s.ledger.cascade table (u :: k) with ⟨err | _, l⟩
  · have hcas₀ : s₀.ledger.cascade table (u :: k) = (.error err, l) := hcas
    rw [hcas₀] at hx
    rw [hcas] at hy
    exact ⟨.error err, _, _, s₂, exec_elevate_error hph hx, hy, htxns, fun t ht => by cases ht⟩
  · have hcas₀ : s₀.ledger.cascade table (u :: k) = (.ok (), l) := hcas
    rw [hcas₀] at hx hall
    rw [hcas] at hy
    obtain ⟨htop, hcovers⟩ := hall rfl
    obtain ⟨e', rest', rfl⟩ : ∃ e' rest', st' = e' :: rest' := by
      cases st' with
      | nil => cases htop
      | cons e' rest' => exact ⟨e', rest', rfl⟩
    have hanswer : e'.txn = Lifecycle.elevated table e.txn u := Option.some.inj htop
    refine ⟨.ok e'.txn, _, _, s₂, exec_elevate_ok hph rfl hx, ?_, htxns, fun t ht => ?_⟩
    · rw [hy, hanswer]
      rfl
    · cases ht
      exact ⟨hph, ⟨e'.name, rest', rfl⟩, hcovers⟩

/-- In every run of any number of connections over one lifecycle, in which callers may end any
transaction: an active connection whose entries are all active in the store elevates its stack with
the answer, or the error, that the elevation of its leaf has from the same state, and with the same
records, while the ledger answers. If it succeeds, all its entries and their records cover the
table, and the same call again changes nothing but the log. -/
theorem elevate_as_leaf {w₀ w : Pool} (h₀ : w₀.Fresh) (h : Pool.FreeReach config w₀ w) {i : Nat}
    (hph : (w.connections i).phase = .active)
    (hactive : ∀ e ∈ (w.connections i).stack, w.ledger.state? e.txn.id = some .active)
    (hup : w.ledger.switch.Up) (table : Table) :
    ∃ leaf x c' s₁ s₂, (w.connections i).leaf? = some leaf ∧
      (elevate config table).exec (w.view i) = (x, c', s₁) ∧
      (Lifecycle.elevate config leaf table).exec w.services = (x, s₂) ∧
      s₁.ledger.txns = s₂.ledger.txns ∧
      ∀ t, x = .ok t →
        (∀ e ∈ c'.stack, e.txn.writableFor table = true ∧ s₁.ledger.Covers table e.txn.id) ∧
        ∃ s₃, (elevate config table).exec (c', s₁) = (.ok t, c', s₃) ∧
          { s₃ with log := s₁.log } = s₁ := by
  have hw := h.genuine h₀
  have hheld := hw.held i
  obtain ⟨e, rest, hst⟩ := List.exists_cons_of_ne_nil (hw.rests i hph)
  obtain ⟨x, c', s₁, s₂, hx, hy, htxns, hok⟩ :=
    elevate_cascades hup hw.proper hheld hph hst hactive table
  have hstays := (staysHeld_stepwise config).elevate table (w.view i)
  refine ⟨e.txn, x, c', s₁, s₂, by simp [leaf?, hst], hx, hy, htxns, fun t ht => ?_⟩
  obtain ⟨hph', ⟨name, rest', hst'⟩, hcovers⟩ := hok t ht
  have hview : (elevate config table).exec (w.view i) = (x, c', s₁) := hx
  rw [hview] at hstays
  obtain ⟨-, hheld'⟩ := hstays.held hw.proper hheld
  refine ⟨fun d hd => ⟨hcovers d hd, (hheld'.copied d hd).covers (hcovers d hd)⟩, ?_⟩
  exact exec_elevate_covering hph' hst' hcovers config s₁

/-! ## A stack behind the store, under a root that was rolled back -/

/-- The bottom entry of the connection that was started under the root of another one. -/
def inner : Txn := .child 3 3 (.root 1 1 .snapshot) .snapshot false none

/-- The entry above it. -/
def innermost : Txn := .child 4 4 inner .snapshot false none

/-- The bottom entry was elevated through the lifecycle, and then the root was rolled back. -/
def overtakenPool : Pool :=
  let raised := nestedPool.onWorld (nestedPool.world.after {} (.elevate inner "accounts"))
  raised.onWorld (raised.world.after {} (.rollback (.root 1 1 .snapshot)))

theorem reach_overtakenPool : Pool.FreeReach {} idlePool overtakenPool := by
  refine .tail (.tail reach_nestedPool.free (.manage ?_)) (.manage ?_)
  · exact List.forall_mem_singleton.2 (by decide)
  · exact List.forall_mem_singleton.2 (by decide)

/-- The entries are active records all the same, and behind them. -/
theorem overtakenPool_active :
    ∀ e ∈ (overtakenPool.connections 1).stack,
      overtakenPool.ledger.state? e.txn.id = some .active := by decide

/-- The general rule at this run. The table that the bottom entry was elevated for comes through to
the leaf. Any other one gets no further than the root, and the error is the same. -/
theorem elevate_as_leaf_overtaken :
    (∃ c' s₁ s₂, (elevate {} "accounts").exec (overtakenPool.view 1) =
        (.ok (innermost.grant "accounts"), c', s₁) ∧
      (Lifecycle.elevate {} innermost "accounts").exec overtakenPool.services =
        (.ok (innermost.grant "accounts"), s₂) ∧
      s₁.ledger.txns = s₂.ledger.txns ∧
      ∀ e ∈ c'.stack, e.txn.writableFor "accounts" = true ∧
        s₁.ledger.Covers "accounts" e.txn.id) ∧
    ∃ c' s₁ s₂, (elevate {} "orders").exec (overtakenPool.view 1) =
        (.error (.alreadyTerminal 1 .rolledBack), c', s₁) ∧
      (Lifecycle.elevate {} innermost "orders").exec overtakenPool.services =
        (.error (.alreadyTerminal 1 .rolledBack), s₂) ∧
      s₁.ledger.txns = s₂.ledger.txns := by
  have hup : overtakenPool.ledger.switch.Up := fun _ _ => rfl
  constructor
  · obtain ⟨leaf, x, c', s₁, s₂, hleaf, hx, hy, htxns, hok⟩ := elevate_as_leaf idlePool_fresh
      reach_overtakenPool (i := 1) rfl overtakenPool_active hup "accounts"
    cases hleaf
    obtain rfl : .ok (innermost.grant "accounts") = x := congrArg Prod.fst hx
    exact ⟨c', s₁, s₂, hx, hy, htxns, (hok _ rfl).1⟩
  · obtain ⟨leaf, x, c', s₁, s₂, hleaf, hx, hy, htxns, -⟩ := elevate_as_leaf idlePool_fresh
      reach_overtakenPool (i := 1) rfl overtakenPool_active hup "orders"
    cases hleaf
    obtain rfl : .error (.alreadyTerminal 1 .rolledBack) = x := congrArg Prod.fst hx
    exact ⟨c', s₁, s₂, hx, hy, htxns⟩

end Connection

end NestedTxn
