import Mathlib.Logic.Relation
import NestedTxn.Proofs.Lifecycle.Soundness

/-!
# Runs of the lifecycle

* `Lifecycle.Call`: one call of the lifecycle with the transactions it is given.
* `Lifecycle.World`: the services, with every transaction that was handed out so far. A caller may
  keep a transaction as long as it likes, so what it gives to a later call may be stale.
* `Lifecycle.Step`: a record is copied, or a call is made with transactions that were handed out.
  `Lifecycle.Reach`: any number of steps. The clock and the plan of the switch are arbitrary.
* `World.Genuine`: the ledger is sound, and a record is what every copy of it has become. This
  holds in every world reached from a fresh one (`Reach.genuine`), and ledgers only grow
  (`Reach.grows`).
-/

namespace NestedTxn

namespace Lifecycle

open Services

/-- One call of the lifecycle. -/
inductive Call where
  | beginRoot (isolation : Isolation)
  | beginChild (parent : Txn) (isolation : Option Isolation) (additive : Bool)
      (table : Option Table)
  | elevate (t : Txn) (table : Table)
  | elevateUnder (t : Txn) (table : Table) (parent : Option Txn)
  | commit (t : Txn)
  | rollback (t : Txn)

namespace Call

/-- The transactions that a call is given. -/
def subjects : Call → List Txn
  | beginRoot _ => []
  | beginChild parent _ _ _ => [parent]
  | elevate t _ => [t]
  | elevateUnder t _ parent => t :: parent.toList
  | commit t => [t]
  | rollback t => [t]

/-- The call, with the transactions that it hands out. -/
def run (config : Config) : Call → Act Services TxnError (List Txn)
  | beginRoot isolation => (fun t => [t]) <$> Lifecycle.beginRoot isolation
  | beginChild parent isolation additive table =>
    (fun t => [t]) <$> Lifecycle.beginChild config parent isolation additive table
  | elevate t table => (fun t => [t]) <$> Lifecycle.elevate config t table
  | elevateUnder t table parent =>
    (fun t => [t]) <$> Lifecycle.elevateUnder config t table parent
  | commit t => (fun _ => []) <$> Lifecycle.commit config t
  | rollback t => (fun _ => []) <$> Lifecycle.rollback t

end Call

/-- The services with the transactions that were handed out. -/
structure World where
  /-- Every transaction that was handed out, at any time. -/
  known : List Txn := []
  /-- The services. -/
  services : Services

namespace World

/-- The records. -/
def ledger (w : World) : Ledger := w.services.ledger

/-- Nothing is recorded and nothing was handed out. -/
structure Fresh (w : World) : Prop where
  known : w.known = []
  txns : w.ledger.txns = []

/-- The world with the usual services. -/
def empty : World := { services := {} }

theorem empty_fresh : empty.Fresh := ⟨rfl, rfl⟩

/-- The world after a call. -/
def after (config : Config) (w : World) (call : Call) : World :=
  let r := (call.run config).exec w.services
  { known := (r.1.toOption.getD []) ++ w.known, services := r.2 }

/-- The world after a record was copied. -/
def copy (w : World) (t : Txn) : World := { w with known := t :: w.known }

/-- The ledger is sound and holds what every known transaction became. -/
structure Genuine (w : World) (max : Nat) : Prop where
  sound : w.ledger.Sound max
  known : ∀ t ∈ w.known, ∃ u, w.ledger.find? t.id = some u ∧ t.Becomes u

end World

/-- One step of a run. -/
inductive Step (config : Config) (w : World) : World → Prop
  /-- A record is copied. -/
  | copy {id : TxnId} {t : Txn} : w.ledger.find? id = some t → Step config w (w.copy t)
  /-- A call is made with known transactions. -/
  | call {c : Call} : (∀ t ∈ c.subjects, t ∈ w.known) → Step config w (w.after config c)

/-- Any number of steps. -/
def Reach (config : Config) : World → World → Prop := Relation.ReflTransGen (Step config)

/-! ## Calls -/

theorem Call.run_evolves (config : Config) (c : Call) : Act.Keeps Evolves (c.run config) := by
  cases c with
  | beginRoot isolation => exact (beginRoot_evolves isolation).map _
  | beginChild parent isolation additive table =>
    exact (beginChild_evolves config parent isolation additive table).map _
  | elevate t table => exact Act.Keeps.map (fun s => (elevate_regrants config t table s).evolves) _
  | elevateUnder t table parent =>
    exact Act.Keeps.map (fun s => (elevateUnder_regrants config t table parent s).evolves) _
  | commit t => exact (commit_evolves config t).map _
  | rollback t => exact (rollback_evolves t).map _

theorem Call.run_sound {config : Config} {c : Call} {s : Services}
    (h : s.ledger.Sound config.maxAncestorDepth.toNat)
    (hc : ∀ t ∈ c.subjects, ∃ u, s.ledger.find? t.id = some u ∧ t.Becomes u) :
    ((c.run config).exec s).2.ledger.Sound config.maxAncestorDepth.toNat := by
  cases c with
  | beginRoot isolation =>
    rw [run, Act.exec_map]
    exact beginRoot_sound isolation h
  | beginChild parent isolation additive table =>
    obtain ⟨u, hu, hb⟩ := hc parent (by simp [subjects])
    rw [run, Act.exec_map]
    exact beginChild_sound config isolation additive table h hu hb.origin
  | elevate t table =>
    rw [run, Act.exec_map]
    exact (elevate_regrants config t table s).sound h
  | elevateUnder t table parent =>
    rw [run, Act.exec_map]
    exact (elevateUnder_regrants config t table parent s).sound h
  | commit t =>
    rw [run, Act.exec_map]
    exact commit_sound config t h
  | rollback t =>
    rw [run, Act.exec_map]
    exact rollback_sound t h

/-- A call hands out records, or what it was given. -/
theorem Call.run_answer {config : Config} {c : Call} {s s' : Services} {ts : List Txn} {t : Txn}
    (h : (c.run config).exec s = (.ok ts, s')) (ht : t ∈ ts) :
    t ∈ c.subjects ∨ s'.ledger.find? t.id = some t := by
  cases c with
  | beginRoot isolation =>
    obtain ⟨u, hu, rfl⟩ := Act.exec_map_eq_ok h
    obtain rfl := List.mem_singleton.1 ht
    exact .inr (beginRoot_found hu)
  | beginChild parent isolation additive table =>
    obtain ⟨u, hu, rfl⟩ := Act.exec_map_eq_ok h
    obtain rfl := List.mem_singleton.1 ht
    exact .inr (beginChild_found hu)
  | elevate u table =>
    obtain ⟨v, hv, rfl⟩ := Act.exec_map_eq_ok h
    obtain rfl := List.mem_singleton.1 ht
    exact (elevate_elevated hv).found.imp_left (by simp [subjects])
  | elevateUnder u table parent =>
    obtain ⟨v, hv, rfl⟩ := Act.exec_map_eq_ok h
    obtain rfl := List.mem_singleton.1 ht
    exact (elevateUnder_elevated hv).found.imp_left (by simp +contextual [subjects])
  | commit u =>
    obtain ⟨_, _, rfl⟩ := Act.exec_map_eq_ok h
    cases ht
  | rollback u =>
    obtain ⟨_, _, rfl⟩ := Act.exec_map_eq_ok h
    cases ht

/-! ## Steps and runs -/

theorem Step.grows {config : Config} {w w' : World} (h : Step config w w') :
    w.ledger.Grows w'.ledger := by
  cases h with
  | copy _ => exact .refl _
  | @call c _ => exact (c.run_evolves config w.services).grows

theorem Step.genuine {config : Config} {w w' : World} (h : Step config w w')
    (hw : w.Genuine config.maxAncestorDepth.toNat) : w'.Genuine config.maxAncestorDepth.toNat := by
  cases h with
  | @copy id t ht =>
    refine ⟨hw.sound, fun u hu => ?_⟩
    rcases List.mem_cons.1 hu with rfl | hu
    · exact ⟨u, by rw [Ledger.id_of_find? ht]; exact ht, .refl u⟩
    · exact hw.known u hu
  | @call c hc =>
    have hg := (c.run_evolves config w.services).grows
    -- what was known before grew with the ledger
    have hold : ∀ t ∈ w.known, ∃ u, (w.after config c).ledger.find? t.id = some u ∧
        t.Becomes u := by
      intro t ht
      obtain ⟨u, hu, htu⟩ := hw.known t ht
      obtain ⟨v, hv, huv⟩ := hg t.id u hu
      exact ⟨v, hv, htu.trans huv⟩
    refine ⟨Call.run_sound hw.sound fun t ht => hw.known t (hc t ht), fun t ht => ?_⟩
    rcases hr : (c.run config).exec w.services with ⟨e | ts, s'⟩
    · exact hold t (by simpa [World.after, hr, Except.toOption] using ht)
    · rcases List.mem_append.1 ht with ht | ht
      · rw [hr] at ht
        rcases Call.run_answer hr ht with hs | hf
        · exact hold t (hc t hs)
        · exact ⟨t, by simpa [World.after, World.ledger, hr] using hf, .refl t⟩
      · exact hold t ht

theorem Reach.trans {config : Config} {w w' w'' : World} (h : Reach config w w')
    (h' : Reach config w' w'') : Reach config w w'' :=
  Relation.ReflTransGen.trans h h'

theorem World.Fresh.genuine {w : World} (h : w.Fresh) (max : Nat) : w.Genuine max :=
  ⟨Ledger.sound_nil h.txns, fun t ht => by rw [h.known] at ht; cases ht⟩

/-- Ledgers only grow. -/
theorem Reach.grows {config : Config} {w w' : World} (h : Reach config w w') :
    w.ledger.Grows w'.ledger := by
  induction h with
  | refl => exact .refl _
  | tail _ step ih => exact ih.trans step.grows

/-- Whatever is done with the transactions that were handed out, the ledger stays sound. -/
theorem Reach.genuine {config : Config} {w w' : World} (h : Reach config w w') (hw : w.Fresh) :
    w'.Genuine config.maxAncestorDepth.toNat := by
  induction h with
  | refl => exact hw.genuine _
  | tail _ step ih => exact step.genuine ih

end Lifecycle

end NestedTxn
