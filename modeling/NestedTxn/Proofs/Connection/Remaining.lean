import NestedTxn.Proofs.Connection.Moves
import NestedTxn.Proofs.Connection.Success

/-!
# Calls that take nothing off the stack

* `Connection.Remains R max p p'`: an active connection moves and stays active, and the ids of its
  entries before and after are related by `R`.
* `activeTxn_remains`, `elevate_remains`: the entries stay the same. `setSavepoint_remains`: they
  stay where they are, and one may come on top.
-/

namespace NestedTxn

namespace Connection

open Ledger Services

variable {max : Nat} {config : Config} {R : List TxnId → List TxnId → Prop}
  {p p' : Connection × Services}

/-- An active connection moves and stays active, and the ids of its entries are related by `R`. -/
def Remains (R : List TxnId → List TxnId → Prop) (max : Nat)
    (p p' : Connection × Services) : Prop :=
  p.2.ledger.Sound max → p.1.Seated p.2.ledger → p.1.phase = .active →
    Moved max p p' ∧ p'.1.phase = .active ∧ R p.1.ids p'.1.ids

theorem Remains.trans (hR : ∀ a b c, R a b → R b c → R a c) (max : Nat)
    (p p' p'' : Connection × Services) (h : Remains R max p p') (h' : Remains R max p' p'') :
    Remains R max p p'' := by
  intro hs hc ha
  obtain ⟨hm, ha', hr⟩ := h hs hc ha
  obtain ⟨hm', ha'', hr'⟩ := h' hm.sound hm.seated ha'
  exact ⟨Moves.trans max p p' p'' (fun _ _ => hm) (fun _ _ => hm') hs hc, ha'', hR _ _ _ hr hr'⟩

theorem Remains.raises (h : Remains (· = ·) max p p') : Remains (· <:+ ·) max p p' := by
  intro hs hc ha
  obtain ⟨hm, ha', hr⟩ := h hs hc ha
  exact ⟨hm, ha', hr ▸ List.suffix_refl _⟩

theorem remains_of_moves (hm : Moves max p p') (hp : p'.1.phase = p.1.phase)
    (hst : p'.1.stack = p.1.stack) : Remains (· = ·) max p p' := fun hs hc ha =>
  ⟨hm hs hc, hp.trans ha, by rw [ids, ids, hst]⟩

theorem trace_remains (done : Bool) (call : ConnectionCall) (subject : String) :
    Act.Keeps (Remains (· = ·) config.maxAncestorDepth.toNat) (trace done call subject) :=
  fun p => remains_of_moves (trace_shifts done call subject p).moves rfl rfl

theorem leaf_remains : Act.Keeps (Remains (· = ·) config.maxAncestorDepth.toNat) leaf := by
  intro p
  have hp : (leaf.exec p).2 = p := by
    rw [leaf, Act.exec_bind_ok (Act.exec_get p)]
    cases p.1.leaf? <;> rfl
  exact remains_of_moves (leaf_shifts p).moves (by rw [hp]) (by rw [hp])

theorem heed_remains (name : String) (on : Bool) :
    Act.Keeps (Remains (· = ·) config.maxAncestorDepth.toNat) (heed name on) := by
  intro p
  refine remains_of_moves (heed_shifts name on p).moves ?_ ?_ <;>
  · rw [heed]
    split <;> rfl

/-- An active connection does not begin another root. -/
theorem ensureActive_remains (config : Config) :
    Act.Keeps (Remains (· = ·) config.maxAncestorDepth.toNat) (ensureActive config) := by
  intro p hs hc ha
  rw [exec_ensureActive_active ha]
  exact ⟨Moves.refl _ p hs hc, ha, rfl⟩

theorem pushChild_remains (config : Config) (name : String) :
    Act.Keeps (Remains (· <:+ ·) config.maxAncestorDepth.toNat) (pushChild config name) := by
  intro p hs hc ha
  refine ⟨(pushChild_shifts config name p).moves hs hc, ?_⟩
  rcases pushChild_cases config name p with
    ⟨err, s', hx, _⟩ | ⟨e, rest, ts, d, s', _, _, _, _, _, hx, _⟩ <;> rw [hx]
  · exact ⟨ha, List.suffix_refl _⟩
  · exact ⟨ha, List.suffix_cons ..⟩

theorem elevateEntries_remains (config : Config) (table : Table) :
    Act.Keeps (Remains (· = ·) config.maxAncestorDepth.toNat) (elevateEntries config table) := by
  intro p hs hc ha
  refine ⟨(elevateEntries_shifts config table p).moves hs hc, ?_⟩
  obtain ⟨st', res, s', hx, hr, hk⟩ := elevateStack_kept config table p.1.stack p.2
  have hids := ids_of_bare (bare_of_kept (fun _ => hc.stacked.find?) hr hk)
  rw [elevateEntries]
  simp only [Act.exec_bind, Act.exec_get, Act.exec_onSnd, hx, alter, Act.exec_modify]
  cases res <;> exact ⟨ha, hids.symm⟩

/-! ## Calls -/

theorem activeTxn_remains (config : Config) :
    Act.Keeps (Remains (· = ·) config.maxAncestorDepth.toNat) (activeTxn config) :=
  .bind (Remains.trans (fun _ _ _ => .trans) _) (ensureActive_remains config) fun _ => leaf_remains

theorem elevate_remains (config : Config) (table : Table) :
    Act.Keeps (Remains (· = ·) config.maxAncestorDepth.toNat) (elevate config table) := by
  have htrans := Remains.trans (R := (· = ·)) (fun _ _ _ => .trans) config.maxAncestorDepth.toNat
  rw [elevate_eq]
  exact .bind htrans (trace_remains _ _ _) fun _ =>
    .bind htrans (ensureActive_remains config) fun _ =>
    .bind htrans (elevateEntries_remains config table) fun _ =>
    .bind htrans (trace_remains _ _ _) fun _ => leaf_remains

theorem setSavepoint_remains (config : Config) (name : String) :
    Act.Keeps (Remains (· <:+ ·) config.maxAncestorDepth.toNat) (setSavepoint config name) := by
  have htrans := Remains.trans (R := (· <:+ ·)) (fun _ _ _ => .trans) config.maxAncestorDepth.toNat
  have hrefl : ∀ p, Remains (· <:+ ·) config.maxAncestorDepth.toNat p p := fun p =>
    (remains_of_moves (.refl _ p) rfl rfl).raises
  have hraises : ∀ {α : Type} {a : Act (Connection × Services) TxnError α},
      Act.Keeps (Remains (· = ·) config.maxAncestorDepth.toNat) a →
      Act.Keeps (Remains (· <:+ ·) config.maxAncestorDepth.toNat) a :=
    fun h p => (h p).raises
  rw [setSavepoint_eq]
  refine .bind htrans hrefl fun p => ?_
  split
  · exact hrefl
  · exact .bind htrans (hraises (heed_remains name true)) fun _ =>
      .bind htrans (hraises (trace_remains _ _ _)) fun _ =>
      .bind htrans (hraises (ensureActive_remains config)) fun _ =>
      .bind htrans (pushChild_remains config name) fun _ =>
      .bind htrans (hraises (trace_remains _ _ _)) fun _ =>
      .bind htrans hrefl fun _ => hrefl

end Connection

end NestedTxn
