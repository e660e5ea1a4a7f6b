import Mathlib.Data.Set.Basic
import Mathlib.Logic.Function.Basic
import NestedTxn.Proofs.Connection.Failures
import NestedTxn.Proofs.Connection.Resting
import NestedTxn.Proofs.Connection.Upkeep

/-!
# Many connections over one lifecycle

* `Connection.Call`: one call of a connection.
* `Connection.Pool`: any number of connections over one set of services. A connection may be started
  under a transaction of another one. `Pool.Step`: a record is copied, a connection is called, or
  the lifecycle is called directly, but not to end an entry of a connection. `Pool.Reach`: any
  number of steps. The clock and the plan of the switch are arbitrary.
* `Connection.Intact`: the representation invariant of a connection.
* `Pool.Upheld`: what a step preserves (`Step.upheld`).
* `Connection.pool_intact`: in every run all connections are intact after every call, and their
  calls fail only as expected.
-/

namespace NestedTxn

/-- Of the readings from number `m` up to `n`, no two are the same. -/
def Clock.Differs (c : Clock) (m n : Nat) : Prop :=
  ∀ i j ts, m ≤ i → i < j → j < n → c.reading i = some ts → c.reading j ≠ some ts

theorem Clock.Rises.differs {c : Clock} {m n : Nat} (h : c.Rises m n) : c.Differs m n :=
  fun i j ts hm hij hj hi hj' => absurd (h i j ts ts hm hij hj hi hj') (Nat.lt_irrefl ts)

/-! ## Calls of the lifecycle leave the others alone -/

namespace Lifecycle

open Services

/-- From `s` to `s'` only the transaction `ended` was ended, and the id of a new record was drawn. -/
structure Touches (ended : Option TxnId) (s s' : Services) : Prop where
  others : ∀ id, some id ≠ ended → ∀ t, s.ledger.find? id = some t →
    ∃ u, s'.ledger.find? id = some u ∧ u.bare = t.bare
  issued : ∀ id t, s'.ledger.find? id = some t → s.ledger.find? id = none → s.Drawn s' id

/-- The transaction that a call ends. -/
def Call.ended? : Call → Option Txn
  | .commit t | .rollback t => some t
  | .beginRoot _ | .beginChild .. | .elevate .. | .elevateUnder .. => none

variable {s s' : Services} {t u : Txn} {ended : Option TxnId}

theorem touches_of_regrants (h : s.Regrants s') : Touches ended s s' where
  others _ _ _ ht := h.find? ht
  issued id t ht hn := by
    obtain ⟨u, hu, _⟩ := h.find?_before ht
    rw [hn] at hu
    cases hu

theorem touches_of_records (h : s.Records s.ledger s') : Touches ended s s' where
  others id _ t ht := ⟨t, (h.find? id).trans ht, rfl⟩
  issued id t ht hn := by
    rw [h.find?, hn] at ht
    cases ht

theorem touches_of_insert (hr : s.clock.reading s.clock.taken = some t.id)
    (hf : s.ledger.find? t.id = none) (h : s.Records (s.ledger.insert t) s')
    (hc : s'.clock = s.ticked.clock) : Touches ended s s' where
  others id _ u hu := by
    have hne : t.id ≠ id := by
      rintro rfl
      rw [hf] at hu
      cases hu
    exact ⟨u, by rw [h.find?, Ledger.find?_insert, if_neg hne, hu], rfl⟩
  issued id u hu hn := by
    rw [h.find?, Ledger.find?_insert] at hu
    split at hu
    · next hid =>
      subst hid
      exact ⟨s.clock.taken, Nat.le_refl _, by rw [hc]; exact Nat.lt_succ_self _, hr⟩
    · rw [hn] at hu
      cases hu

theorem touches_of_finish {id : TxnId} {o : Outcome} (hu : s.ledger.find? id = some u)
    (h : s.Records (s.ledger.replace (u.finish o)) s') : Touches (some id) s s' where
  others other hne t ht := by
    have hid : (u.finish o).id ≠ other := by
      rw [Txn.finish_id, Ledger.id_of_find? hu]
      rintro rfl
      exact hne rfl
    exact ⟨t, by rw [h.find?, Ledger.find?_replace, if_neg hid, ht], rfl⟩
  issued other t ht hn := by
    rw [h.find?, Ledger.find?_replace, hn] at ht
    split at ht <;> cases ht

theorem Call.run_touches (config : Config) (c : Call) :
    Act.Keeps (Touches (c.ended?.map (·.id))) (c.run config) := by
  cases c with
  | beginRoot isolation =>
    refine Act.Keeps.map (fun s => ?_) _
    rcases beginRoot_cases isolation s with ⟨e, s', he, hs⟩ | ⟨ts, s', hr, hf, he, hs, hc⟩
    · rw [he]
      exact touches_of_records hs
    · rw [he]
      exact touches_of_insert (t := .root ts ts isolation) hr hf hs hc
  | beginChild parent isolation additive table =>
    refine Act.Keeps.map (fun s => ?_) _
    rcases beginChild_cases config parent isolation additive table s with
      ⟨e, s', he, hs⟩ | ⟨ts, d, s', hr, hf, _, _, he, hs, hc⟩
    · rw [he]
      exact touches_of_records hs
    · rw [he]
      exact touches_of_insert hr hf hs hc
  | elevate t table =>
    exact Act.Keeps.map (fun s => touches_of_regrants (elevate_regrants config t table s)) _
  | elevateUnder t table parent =>
    exact Act.Keeps.map
      (fun s => touches_of_regrants (elevateUnder_regrants config t table parent s)) _
  | commit t =>
    refine Act.Keeps.map (fun s => ?_) _
    rcases commit_cases config t s with ⟨e, s', he, hs⟩ | ⟨ts, g, u, s', _, _, hu, _, he, hs, _⟩
    · rw [he]
      exact touches_of_records hs
    · rw [he]
      exact touches_of_finish hu hs
  | rollback t =>
    refine Act.Keeps.map (fun s => ?_) _
    rcases rollback_cases t s with
      ⟨e, s', he, hs⟩ | ⟨s', he, hs, _⟩ | ⟨u, s', _, hu, _, he, hs, _⟩
    · rw [he]
      exact touches_of_records hs.toRecords
    · rw [he]
      exact touches_of_records hs.toRecords
    · rw [he]
      exact touches_of_finish hu hs

end Lifecycle

namespace Connection

open Ledger Services

/-! ## Calls of a connection -/

/-- One call of a connection. -/
inductive Call where
  | activeTxn
  | activateNested (outer : Txn) (additive : Bool) (table : Option Table)
  | setSavepoint (name : String)
  | releaseSavepoint (name : String)
  | rollbackTo (name : String)
  | commit
  | abort
  | close
  | elevate (table : Table)
  | suppress (on : Bool)

namespace Call

/-- The transaction that a call is given. -/
def outer? : Call → Option Txn
  | activateNested outer _ _ => some outer
  | activeTxn | setSavepoint _ | releaseSavepoint _ | rollbackTo _ | commit | abort | close
  | elevate _ | suppress _ => none

/-- The call. What it answers is an entry of the stack, a height or a timestamp. -/
def run (config : Config) : Call → Act (Connection × Services) TxnError Unit
  | activeTxn => discard (Connection.activeTxn config)
  | activateNested outer additive table =>
    Connection.activateNested config outer additive table
  | setSavepoint name => discard (Connection.setSavepoint config name)
  | releaseSavepoint name => discard (Connection.releaseSavepoint config name)
  | rollbackTo name => discard (Connection.rollbackTo config name)
  | commit => discard (Connection.commit config)
  | abort => Connection.abort
  | close => Connection.close
  | elevate table => discard (Connection.elevate config table)
  | suppress on => alter (·.suppress on)

theorem run_rests (config : Config) (c : Call) : Act.Keeps StaysAtRest (c.run config) := by
  cases c with
  | activeTxn => exact (activeTxn_rests config).map _
  | activateNested outer additive table => exact activateNested_rests config outer additive table
  | setSavepoint name => exact (setSavepoint_rests config name).map _
  | releaseSavepoint name => exact (releaseSavepoint_rests config name).map _
  | rollbackTo name => exact (rollbackTo_rests config name).map _
  | commit => exact (commit_rests config).map _
  | abort => exact abort_rests
  | close => exact close_rests
  | elevate table => exact (elevate_rests config table).map _
  | suppress on => exact fun _ h => h

/-- A call is given a transaction that was recorded. -/
theorem run_upkeep {config : Config} {c : Call} {p : Connection × Services}
    (hc : ∀ t ∈ c.outer?, ∃ u, p.2.ledger.find? t.id = some u ∧ t.Becomes u) :
    Upkeep config.maxAncestorDepth.toNat p ((c.run config).exec p).2 := by
  cases c with
  | activeTxn => exact Shifts.upkeep ((activeTxn_shifts config).map _ p)
  | activateNested outer additive table =>
    obtain ⟨u, hu, hb⟩ := hc outer rfl
    exact activateNested_upkeep additive table hu hb.origin
  | setSavepoint name => exact Shifts.upkeep ((setSavepoint_shifts config name).map _ p)
  | releaseSavepoint name => exact Shifts.upkeep ((releaseSavepoint_shifts config name).map _ p)
  | rollbackTo name => exact Shifts.upkeep ((rollbackTo_shifts config name).map _ p)
  | commit => exact Changes.upkeep ((commit_changes config).map _ p)
  | abort => exact Shifts.upkeep (abort_shifts config p)
  | close => exact Shifts.upkeep (close_shifts config p)
  | elevate table => exact Shifts.upkeep ((elevate_shifts config table).map _ p)
  | suppress on => exact Shifts.upkeep (shift_of_stack (p.1.suppress on) rfl .inl)

end Call

/-! ## Pools -/

/-- Connections over one set of services, by number. -/
structure Pool where
  /-- The connections. -/
  connections : Nat → Connection
  /-- The transactions that each of them ever began. -/
  begun : Nat → Set TxnId
  /-- Every transaction that was handed out, at any time. -/
  known : List Txn
  /-- The services. -/
  services : Services

namespace Pool

/-- The records. -/
def ledger (w : Pool) : Ledger := w.services.ledger

/-- What a connection works on. -/
def view (w : Pool) (i : Nat) : Connection × Services := (w.connections i, w.services)

/-- What callers of the lifecycle work on. -/
def world (w : Pool) : Lifecycle.World := { known := w.known, services := w.services }

/-- Nothing was begun yet. -/
structure Fresh (w : Pool) : Prop where
  idle : ∀ i, (w.connections i).phase = .idle ∧ (w.connections i).stack = []
  begun : ∀ i, w.begun i = ∅
  world : w.world.Fresh

/-- The pool after a connection came to `p`. The values of its entries may be taken from it. -/
def put (w : Pool) (i : Nat) (p : Connection × Services) : Pool where
  connections := Function.update w.connections i p.1
  begun := Function.update w.begun i
    (w.begun i ∪ {id | w.ledger.find? id = none ∧ p.2.ledger.find? id ≠ none})
  known := p.1.stack.map (·.txn) ++ w.known
  services := p.2

/-- The pool after the world of its callers came to `v`. -/
def onWorld (w : Pool) (v : Lifecycle.World) : Pool :=
  { w with known := v.known, services := v.services }

/-- The pool after a call of connection `i`, whether or not it failed. -/
def after (config : Config) (w : Pool) (i : Nat) (c : Call) : Pool :=
  w.put i ((c.run config).exec (w.view i)).2

/-- One step of a run. -/
inductive Step (config : Config) (w : Pool) : Pool → Prop
  /-- A record is copied. -/
  | copy {id : TxnId} {t : Txn} :
      w.ledger.find? id = some t → Step config w (w.onWorld (w.world.copy t))
  /-- A connection is called, with a known transaction. -/
  | call (i : Nat) {c : Call} :
      (∀ t ∈ c.outer?, t ∈ w.known) → Step config w (w.after config i c)
  /-- The lifecycle is called with known transactions. It does not end an entry of a connection. -/
  | manage {c : Lifecycle.Call} : (∀ t ∈ c.subjects, t ∈ w.known) →
      (∀ t ∈ c.ended?, ∀ i, t.id ∉ (w.connections i).ids) →
      Step config w (w.onWorld (w.world.after config c))

/-- Any number of steps. -/
def Reach (config : Config) : Pool → Pool → Prop := Relation.ReflTransGen (Step config)

/-! ## What a step preserves -/

/-- All connections are in order, in a pool that was started on the services `s₀`. -/
structure Upheld (s₀ : Services) (max : Nat) (w : Pool) : Prop where
  genuine : w.world.Genuine max
  perched : ∀ i, (w.connections i).Perched w.ledger
  linked : ∀ i, (w.connections i).Linked
  rests : ∀ i, (w.connections i).Rests
  /-- No transaction is an entry of two connections. -/
  apart : ∀ i j, i ≠ j → ∀ id ∈ (w.connections i).ids, id ∉ (w.connections j).ids
  /-- What a connection began is on its stack, or decided. -/
  left : ∀ i, ∀ id ∈ w.begun i, id ∈ (w.connections i).ids ∨ w.ledger.Decided id
  elapsed : s₀.Elapsed w.services
  /-- The ids of the records were drawn. -/
  issued : ∀ id t, w.ledger.find? id = some t → s₀.Drawn w.services id

variable {config : Config} {s₀ : Services} {max : Nat} {w w' : Pool} {i : Nat}

theorem Fresh.upheld (h : w.Fresh) (max : Nat) : w.Upheld w.services max where
  genuine := h.world.genuine max
  perched i := .of_nil (h.idle i).2
  linked i := by
    unfold Linked
    rw [(h.idle i).2]
    exact .nil
  rests i := rests_of_ne (by rw [(h.idle i).1]; nofun)
  apart i j _ id hid := by
    rw [ids, (h.idle i).2] at hid
    cases hid
  left i id hid := by
    rw [h.begun i] at hid
    cases hid
  elapsed := ⟨rfl, Nat.le_refl _⟩
  issued id t ht := by
    have hnone : w.ledger.find? id = none := by
      have htxns : w.ledger.txns = [] := h.world.txns
      simp [Ledger.find?, htxns]
    rw [hnone] at ht
    cases ht

@[simp] theorem put_self (w : Pool) (i : Nat) (p : Connection × Services) :
    (w.put i p).connections i = p.1 := Function.update_self ..

@[simp] theorem put_of_ne (w : Pool) (p : Connection × Services) {i j : Nat} (h : j ≠ i) :
    (w.put i p).connections j = w.connections j := Function.update_of_ne h ..

/-- Connection `i` and the other ones apart. -/
theorem put_all {P : Connection → Prop} {p : Connection × Services} (hself : P p.1)
    (hothers : ∀ j, j ≠ i → P (w.connections j)) (j : Nat) : P ((w.put i p).connections j) := by
  by_cases hj : j = i
  · subst hj
    rwa [put_self]
  · rw [put_of_ne w p hj]
    exact hothers j hj

@[simp] theorem begun_put_self (w : Pool) (i : Nat) (p : Connection × Services) :
    (w.put i p).begun i =
      w.begun i ∪ {id | w.ledger.find? id = none ∧ p.2.ledger.find? id ≠ none} :=
  Function.update_self ..

@[simp] theorem begun_put_of_ne (w : Pool) (p : Connection × Services) {i j : Nat} (h : j ≠ i) :
    (w.put i p).begun j = w.begun j := Function.update_of_ne h ..

section

variable (h : w.Upheld s₀ max) {p : Connection × Services} (hu : Upkept max (w.view i) p)
include h hu

/-- What was handed out is still recorded. The values of the entries are, too. -/
theorem Upheld.put_genuine : (w.put i p).world.Genuine max := by
  refine ⟨hu.sound, fun t ht => ?_⟩
  rcases List.mem_append.1 ht with ht | ht
  · -- an entry is recorded up to its destination, and active
    obtain ⟨e, he, rfl⟩ := List.mem_map.1 ht
    obtain ⟨u, hfu, hb⟩ := hu.perched.found e he
    exact ⟨u, hfu, Txn.origin_of_bare hb, fun hn => absurd (hu.perched.active e he) hn⟩
  · obtain ⟨u, hfu, htu⟩ := h.genuine.known t ht
    obtain ⟨v, hv, huv⟩ := hu.dated.grows t.id u hfu
    exact ⟨v, hv, htu.trans huv⟩

/-- What comes onto the stack is on no other stack. -/
theorem Upheld.put_clash {j : Nat} (hj : j ≠ i) : ∀ id ∈ p.1.ids, id ∉ (w.connections j).ids := by
  intro id hid hin
  rcases hu.fresh id hid with hold | hnew
  · exact h.apart j i hj id hin hold
  · exact (h.perched j).recorded hin hnew

/-- A call of one connection. -/
theorem Upheld.put (hr : p.1.Rests) : (w.put i p).Upheld s₀ max where
  genuine := h.put_genuine hu
  perched := by
    refine put_all (P := fun c => c.Perched p.2.ledger) hu.perched fun j hj => ?_
    refine (h.perched j).keep rfl .inl fun e he t ht => hu.others e.txn.id ?_ t ht
    exact h.apart j i hj _ (List.mem_map_of_mem he)
  linked := put_all hu.linked fun j _ => h.linked j
  rests := put_all hr fun j _ => h.rests j
  apart j k hjk id hid := by
    by_cases hj : j = i
    · subst hj
      rw [put_self] at hid
      rw [put_of_ne w p hjk.symm]
      exact h.put_clash hu hjk.symm id hid
    · rw [put_of_ne w p hj] at hid
      by_cases hk : k = i
      · subst hk
        rw [put_self]
        exact fun hin => h.put_clash hu hj id hin hid
      · rw [put_of_ne w p hk]
        exact h.apart j k hjk id hid
  left j id hid := by
    by_cases hj : j = i
    · subst hj
      rw [begun_put_self] at hid
      rw [put_self]
      rcases hid with hold | hnew
      · rcases h.left j id hold with hin | hdecided
        · exact hu.left id (.inl hin)
        · exact .inr (hdecided.grows hu.dated.grows)
      · exact hu.left id (.inr hnew)
    · rw [begun_put_of_ne w p hj] at hid
      rw [put_of_ne w p hj]
      exact (h.left j id hid).imp_right fun hdecided => hdecided.grows hu.dated.grows
  elapsed := h.elapsed.trans hu.dated.toElapsed
  issued id t ht := by
    cases hf : w.ledger.find? id with
    | none => exact (hu.issued id t ht hf).widen_left h.elapsed
    | some u => exact (h.issued id u hf).widen_right hu.dated.toElapsed

end

/-- A call of the lifecycle that ends no entry. -/
theorem Upheld.onWorld (h : w.Upheld s₀ max) {v : Lifecycle.World} {ended : Option TxnId}
    (hv : v.Genuine max) (hd : w.services.Dated v.services)
    (ht : Lifecycle.Touches ended w.services v.services)
    (hended : ∀ id ∈ ended, ∀ i, id ∉ (w.connections i).ids) : (w.onWorld v).Upheld s₀ max where
  genuine := hv
  perched j := by
    refine (h.perched j).keep rfl .inl fun e he t hf => ht.others e.txn.id ?_ t hf
    intro heq
    exact hended e.txn.id heq.symm j (List.mem_map_of_mem he)
  linked := h.linked
  rests := h.rests
  apart := h.apart
  left j id hid := (h.left j id hid).imp_right fun hdecided => hdecided.grows hd.grows
  elapsed := h.elapsed.trans hd.toElapsed
  issued id t hf := by
    cases hf₀ : w.ledger.find? id with
    | none => exact (ht.issued id t hf hf₀).widen_left h.elapsed
    | some u => exact (h.issued id u hf₀).widen_right hd.toElapsed

theorem Step.upheld (h : Step config w w') (hw : w.Upheld s₀ config.maxAncestorDepth.toNat) :
    w'.Upheld s₀ config.maxAncestorDepth.toNat := by
  cases h with
  | copy ht =>
    have hstep : Lifecycle.Step config w.world (w.world.copy _) := .copy ht
    have htouches : Lifecycle.Touches none w.services w.services :=
      Lifecycle.touches_of_records (.refl _)
    exact hw.onWorld (hstep.genuine hw.genuine) (.refl _) htouches (by simp)
  | @call i c hc =>
    have hu : Upkeep config.maxAncestorDepth.toNat (w.view i) _ :=
      Call.run_upkeep fun t ht => hw.genuine.known t (hc t ht)
    refine hw.put (hu hw.genuine.sound (hw.perched i) (hw.linked i)) ?_
    exact c.run_rests config (w.view i) (hw.rests i)
  | @manage c hc hended =>
    have hgenuine := Lifecycle.Step.genuine (.call hc) hw.genuine
    refine hw.onWorld hgenuine (c.run_dated config w.services)
      (c.run_touches config w.services) fun id hid => ?_
    obtain ⟨t, ht, rfl⟩ := Option.map_eq_some_iff.1 hid
    exact hended t ht

theorem Reach.upheld {w₀ : Pool} (h₀ : w₀.Fresh) (h : Reach config w₀ w) :
    w.Upheld w₀.services config.maxAncestorDepth.toNat := by
  induction h with
  | refl => exact h₀.upheld _
  | tail _ step ih => exact step.upheld ih

/-- While the clock repeats no reading, the next ones are not the ids of records. -/
theorem Upheld.unused (h : w.Upheld s₀ max) {n : Nat}
    (hclock : s₀.clock.Differs s₀.clock.taken (w.services.clock.taken + n)) :
    w.services.Unused n := by
  intro k hk ts hts
  rw [h.elapsed.reading] at hts ⊢
  constructor
  · by_contra hsome
    obtain ⟨t, ht⟩ := Option.ne_none_iff_exists'.1 hsome
    obtain ⟨j, hj, hlt, hdrawn⟩ := h.issued ts t ht
    exact hclock j _ ts hj (by omega) (by omega) hdrawn hts
  · intro j hj hearlier
    have hstart := h.elapsed.taken
    exact hclock _ _ ts (by omega) (by omega) (by omega) hearlier hts

end Pool

/-! ## The representation invariant -/

/-- A connection that is in order, with the ledger and the transactions that it ever began. -/
structure Intact (c : Connection) (l : Ledger) (begun : Set TxnId) : Prop where
  active : c.phase = .active ↔ c.stack ≠ []
  /-- Each entry is a child of the next one, one level deeper. -/
  linked : c.stack.IsChain Savepoint.On
  values : ∀ e ∈ c.stack, e.txn.state = .active
  records : ∀ e ∈ c.stack, ∃ t, l.find? e.txn.id = some t ∧ t.state = .active
  nodup : c.ids.Nodup
  /-- What was begun and is no entry any more is terminal, or one above it is committed. -/
  left : ∀ id ∈ begun, id ∉ c.ids → l.Decided id

/-- In every run of any number of connections over one lifecycle, whatever outages there are, every
connection is intact, and no transaction is an entry of two. While the clock repeats no reading, a
savepoint, a release, a rollback to a savepoint, a commit, an abort and a close fail only as
expected. -/
theorem pool_intact {config : Config} {w₀ w : Pool} (h₀ : w₀.Fresh)
    (h : Pool.Reach config w₀ w) :
    (∀ i, Intact (w.connections i) w.ledger (w.begun i)) ∧
    (∀ i j, i ≠ j → ∀ id ∈ (w.connections i).ids, id ∉ (w.connections j).ids) ∧
    (w₀.services.clock.Differs w₀.services.clock.taken (w.services.clock.taken + 2) → ∀ i,
      (∀ name, Act.FailsWith (Expected config) (setSavepoint config name) (w.view i)) ∧
      (∀ name, Act.FailsWith (Expected config) (releaseSavepoint config name) (w.view i)) ∧
      (∀ name, Act.FailsWith (Expected config) (rollbackTo config name) (w.view i)) ∧
      Act.FailsWith (Expected config) (commit config) (w.view i) ∧
      Act.FailsWith (Expected config) abort (w.view i) ∧
      Act.FailsWith (Expected config) close (w.view i)) := by
  have hw := h.upheld h₀
  have hs := hw.genuine.sound
  refine ⟨fun i => ?_, hw.apart, fun hclock i => ?_⟩
  · have hp := hw.perched i
    refine ⟨⟨hw.rests i, fun hne => ?_⟩, hw.linked i, hp.active, fun e he => ?_, hp.nodup,
      fun id hid hoff => (hw.left i id hid).resolve_left hoff⟩
    · by_contra hph
      exact hne (hp.idle hph)
    · obtain ⟨t, ht, _⟩ := hp.found e he
      exact ⟨t, ht, hp.record_active he ht⟩
  · have hp : (w.view i).1.Perched (w.view i).2.ledger := hw.perched i
    have hu := hw.unused hclock
    exact ⟨setSavepoint_fails hp hs hu, releaseSavepoint_fails hp hs, rollbackTo_fails hp hs hu,
      commit_fails hp hs, abort_fails hp hs, close_fails hp hs⟩

/-! ## A connection under a transaction of another one -/

/-- Idle connections over the usual services. -/
def idlePool : Pool where
  connections i := ofName {} (toString i)
  begun _ := ∅
  known := []
  services := {}

theorem idlePool_fresh : idlePool.Fresh where
  idle _ := ⟨rfl, rfl⟩
  begun _ := rfl
  world := ⟨rfl, rfl⟩

/-- Connection 0 has set a savepoint, and connection 1 was started under its root. -/
def nestedPool : Pool :=
  ((idlePool.after {} 0 (.setSavepoint "outer")).after {} 1
    (.activateNested (.root 1 1 .snapshot) false none)).after {} 1 (.setSavepoint "inner")

theorem reach_nestedPool : Pool.Reach {} idlePool nestedPool := by
  refine .tail (.tail (.tail .refl (.call 0 ?_)) (.call 1 ?_)) (.call 1 ?_)
  · intro t ht
    cases ht
  · intro t ht
    obtain rfl : Txn.root 1 1 .snapshot = t := Option.some.inj ht
    decide
  · intro t ht
    cases ht

/-- The general rule at this run: the inner connection has two entries. -/
theorem pool_intact_nested :
    (nestedPool.connections 1).depth = 2 ∧
      Intact (nestedPool.connections 1) nestedPool.ledger (nestedPool.begun 1) ∧
      Act.FailsWith (Expected {}) (rollbackTo {} "inner") (nestedPool.view 1) := by
  have hrun := pool_intact idlePool_fresh reach_nestedPool
  have htaken : nestedPool.services.clock.taken + 2 < UInt64.size := by decide
  have hclock := (Clock.rises_standard htaken).differs
  exact ⟨rfl, hrun.1 1, (hrun.2.2 hclock 1).2.2.1 "inner"⟩

end Connection

end NestedTxn
